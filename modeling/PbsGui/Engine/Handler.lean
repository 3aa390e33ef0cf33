import PbsGui.Engine.Groups
import PbsGui.Engine.JobKey
import PbsGui.Engine.ListStore
import PbsGui.Engine.Schedule

/-!
# Requests that change the stores

The requests of the GUI to list, save and delete jobs and connections (`handler.rs`).  Each
works on a list store and on the credential store, and either can fail.  A connection's secret
is deleted once the connection is gone from its store; a job's encryption key is deleted before
the store is asked.
-/

namespace PbsGui.Engine

open Lib PbsGui.Core

abbrev Credentials := String → Option String

namespace Credentials

/-- Store a secret; a fault leaves the store as it is. -/
def set (credentials : Credentials) (fault : Option String) (key secret : String) :
    Credentials × Except String Unit :=
  match fault with
  | some e => (credentials, .error e)
  | none => (fun other => if other = key then some secret else credentials other, .ok ())

def delete (credentials : Credentials) (fault : Option String) (key : String) :
    Credentials × Except String Unit :=
  match fault with
  | some e => (credentials, .error e)
  | none => (fun other => if other = key then none else credentials other, .ok ())

/-- Delete a job's stored key (`enckey::clear`). -/
def clear (credentials : Credentials) (fault : Option String) (jobId : String) :
    Credentials × Except String Unit :=
  credentials.delete fault (encSecretKey jobId)

end Credentials

/-- The credential-store key for a SQL connection's password. -/
def sqlSecretKey (id : String) : String := "sql:" ++ id

/-- The credential-store key for a PBS server's token secret. -/
def pbsSecretKey (id : String) : String := "pbs:" ++ id

/-- What the engine keeps. -/
structure EngineStores where
  jobs : StoreWorld Ipc.Job
  sqlConnections : StoreWorld Ipc.SqlConnection
  pbsServers : StoreWorld Ipc.PbsServer
  credentials : Credentials

/-- How the lists are written. -/
structure StoreFormats where
  jobs : StoreFormat (List Ipc.Job)
  sqlConnections : StoreFormat (List Ipc.SqlConnection)
  pbsServers : StoreFormat (List Ipc.PbsServer)

/-- The circumstances of a request: the write of the list, and faults of the
credential store. -/
structure RequestEnv where
  persist : PersistEnv
  setFault : Option String := none
  deleteFault : Option String := none

inductive Request
  | listJobs
  | saveJob (job : Ipc.Job)
  | deleteJob (id : String)
  | listSqlConnections
  | saveSqlConnection (connection : Ipc.SqlConnection) (secret : Option String)
  | deleteSqlConnection (id : String)
  | listPbsServers
  | savePbsServer (server : Ipc.PbsServer) (secret : Option String)
  | deletePbsServer (id : String)

inductive Reply
  | jobs (jobs : List Ipc.Job)
  | sqlConnections (connections : List Ipc.SqlConnection)
  | pbsServers (servers : List Ipc.PbsServer)
  | saved (id : String)
  | deleted
  | error (message : String)
  deriving DecidableEq

def savedReply (id : String) : Except String Unit → Reply
  | .ok () => .saved id
  | .error e => .error e

def deletedReply : Except String Unit → Reply
  | .ok () => .deleted
  | .error e => .error e

section Connections

variable {α : Type*}

/-- A listing, or why the store could not be loaded. -/
def listReply (reply : List α → Reply) (store : ListStore α) : Reply :=
  match store.loadError with
  | some e => .error e
  | none => reply store.list

/-- Save a connection: its secret first, then the list. -/
def saveConnection [HasId α] (format : StoreFormat (List α)) (env : RequestEnv) (secretKey : String)
    (item : α) (secret : Option String) (world : StoreWorld α) (credentials : Credentials) :
    StoreWorld α × Credentials × Except String Unit :=
  match world.store.ensureWritable with
  | .error e => (world, credentials, .error e)
  | .ok () =>
    match secret with
    | none =>
      let saved := JsonStore.save format env.persist item world
      (saved.1, credentials, saved.2)
    | some secret =>
      match credentials.set env.setFault secretKey secret with
      | (credentials, .error e) => (world, credentials, .error e)
      | (credentials, .ok ()) =>
        let saved := JsonStore.save format env.persist item world
        (saved.1, credentials, saved.2)

/-- Delete a connection, and its secret if that succeeded. -/
def deleteConnection [HasId α] (format : StoreFormat (List α)) (env : RequestEnv)
    (secretKey id : String) (world : StoreWorld α) (credentials : Credentials) :
    StoreWorld α × Credentials × Except String Unit :=
  let deleted := JsonStore.delete format env.persist id world
  match deleted.2 with
  | .ok () => (deleted.1, (credentials.delete env.deleteFault secretKey).1, .ok ())
  | .error e => (deleted.1, credentials, .error e)

end Connections

/-- The checks of a job before it is saved, and the save. -/
def saveJob (format : StoreFormat (List Ipc.Job)) (env : PersistEnv) (job : Ipc.Job)
    (world : StoreWorld Ipc.Job) : StoreWorld Ipc.Job × Except String Unit :=
  match validateJob job with
  | .error e => (world, .error e)
  | .ok () =>
    match validatePbsGroups job world.store.list with
    | .error e => (world, .error e)
    | .ok () => JobStore.saveJob format env job world

def handle (formats : StoreFormats) (env : RequestEnv) (request : Request) (stores : EngineStores) :
    EngineStores × Reply :=
  match request with
  | .listJobs => (stores, listReply .jobs stores.jobs.store)
  | .saveJob job =>
    let saved := saveJob formats.jobs env.persist job stores.jobs
    ({ stores with jobs := saved.1 }, savedReply job.id saved.2)
  | .deleteJob id =>
    -- the key goes first, and a failure to delete it is ignored
    let cleared := stores.credentials.clear env.deleteFault id
    let deleted := JobStore.delete formats.jobs env.persist id stores.jobs
    ({ stores with jobs := deleted.1, credentials := cleared.1 }, deletedReply deleted.2)
  | .listSqlConnections => (stores, listReply .sqlConnections stores.sqlConnections.store)
  | .saveSqlConnection connection secret =>
    let saved := saveConnection formats.sqlConnections env (sqlSecretKey connection.id) connection
      secret stores.sqlConnections stores.credentials
    ({ stores with sqlConnections := saved.1, credentials := saved.2.1 },
      savedReply connection.id saved.2.2)
  | .deleteSqlConnection id =>
    let deleted := deleteConnection formats.sqlConnections env (sqlSecretKey id) id
      stores.sqlConnections stores.credentials
    ({ stores with sqlConnections := deleted.1, credentials := deleted.2.1 },
      deletedReply deleted.2.2)
  | .listPbsServers => (stores, listReply .pbsServers stores.pbsServers.store)
  | .savePbsServer server secret =>
    let saved := saveConnection formats.pbsServers env (pbsSecretKey server.id) server secret
      stores.pbsServers stores.credentials
    ({ stores with pbsServers := saved.1, credentials := saved.2.1 },
      savedReply server.id saved.2.2)
  | .deletePbsServer id =>
    let deleted := deleteConnection formats.pbsServers env (pbsSecretKey id) id
      stores.pbsServers stores.credentials
    ({ stores with pbsServers := deleted.1, credentials := deleted.2.1 },
      deletedReply deleted.2.2)

section Deletes

variable {formats : StoreFormats} {env : RequestEnv} {stores : EngineStores} {id message : String}

theorem deletedReply_error {result : Except String Unit} (h : deletedReply result = .error message) :
    result = .error message := by
  cases result with
  | ok => cases h
  | error =>
    cases h
    rfl

variable {credentials : Credentials}

theorem clear_key_eq_iff {fault : Option String} :
    (credentials.clear fault id).1 (encSecretKey id) = credentials (encSecretKey id) ↔
      credentials (encSecretKey id) = none ∨ fault ≠ none := by
  cases fault with
  | none => simp [Credentials.clear, Credentials.delete, eq_comm]
  | some => simp [Credentials.clear, Credentials.delete]

/-- After a request to delete a job that is answered with an error the file of the jobs
is as it was; the job's key is as it was exactly if there was none, or if deleting it
failed as well. -/
theorem deleteJob_error_keeps_key_iff
    (herror : (handle formats env (.deleteJob id) stores).2 = .error message) :
    (handle formats env (.deleteJob id) stores).1.jobs.disk stores.jobs.store.path =
        stores.jobs.disk stores.jobs.store.path ∧
      ((handle formats env (.deleteJob id) stores).1.credentials (encSecretKey id) =
          stores.credentials (encSecretKey id) ↔
        stores.credentials (encSecretKey id) = none ∨ env.deleteFault ≠ none) := by
  have hdelete : JobStore.delete formats.jobs env.persist id stores.jobs =
      ((JobStore.delete formats.jobs env.persist id stores.jobs).1, .error message) :=
    Prod.ext rfl (deletedReply_error herror)
  exact ⟨(ListStore.mutate_error_iff hdelete).1, clear_key_eq_iff⟩

end Deletes

/-- The credential store as a restore reads it. -/
def Credentials.secrets (credentials : Credentials) (base64Decode : String → Except String Bytes) :
    Secrets where
  get key := .ok (credentials key)
  base64Decode := base64Decode

/-- A job with a key, in a store whose file did not load. -/
def sampleReadOnly : EngineStores where
  jobs := ⟨ListStore.withPath sampleFormat sampleSigning none sampleBadDisk samplePath, sampleBadDisk⟩
  sqlConnections := ⟨⟨⟨"C:\\ProgramData\\pbsgui", "sql-connections.json"⟩, [], none⟩, sampleBadDisk⟩
  pbsServers := ⟨⟨⟨"C:\\ProgramData\\pbsgui", "pbs-servers.json"⟩, [], none⟩, sampleBadDisk⟩
  credentials key := if key = "enc:a" then some "AQEBAQEBAQEBAQEBAQEBAQEBAQEBAQEBAQEBAQEBAQE=" else none

/-- Formats that can write nothing but a list of jobs. -/
def sampleFormats : StoreFormats where
  jobs := sampleFormat
  sqlConnections := { sampleFormat with toJson := fun _ => .error "unknown"
                                        fromJson := fun _ => .error "unknown"
                                        fromBytes := fun _ => .error "unknown" }
  pbsServers := { sampleFormat with toJson := fun _ => .error "unknown"
                                    fromJson := fun _ => .error "unknown"
                                    fromBytes := fun _ => .error "unknown" }

/-- The request is refused, and the key that the job's snapshots need is gone. -/
theorem refusedDelete_loses_key :
    let after := handle sampleFormats { persist := { signing := sampleSigning } } (.deleteJob "a")
      sampleReadOnly
    (∃ message, after.2 = .error message) ∧
      loadConfig (sampleReadOnly.credentials.secrets sampleSecrets.base64Decode) "a" =
        .ok (some sampleKey) ∧
      loadConfig (after.1.credentials.secrets sampleSecrets.base64Decode) "a" = .ok none :=
  ⟨⟨_, rfl⟩, rfl, rfl⟩

/-- The key survives where the credential store refuses to delete it. -/
theorem refusedDelete_keeps_key :
    (handle sampleFormats
        { persist := { signing := sampleSigning }, deleteFault := some "Access is denied." }
        (.deleteJob "a") sampleReadOnly).1.credentials (encSecretKey "a") =
      sampleReadOnly.credentials (encSecretKey "a") :=
  (deleteJob_error_keeps_key_iff rfl).2.mpr (.inr (by simp))

/-- Jobs with different ids on one server have no group in common. -/
def GroupsSeparate (jobs : List Ipc.Job) : Prop :=
  ∀ job ∈ jobs, ∀ other ∈ jobs, other.id ≠ job.id → ∀ serverId backupId otherId,
    job.destination = .pbs serverId backupId → other.destination = .pbs serverId otherId →
      GroupsApart other job

section Groups

variable {job : Ipc.Job} {jobs kept : List Ipc.Job}

theorem GroupsSeparate.subset (h : GroupsSeparate jobs) (hsub : kept ⊆ jobs) : GroupsSeparate kept :=
  fun job hjob other hother => h job (hsub hjob) other (hsub hother)

theorem GroupsApart.symm {other : Ipc.Job} (h : GroupsApart other job) : GroupsApart job other :=
  fun group hgroup hother => h group hother hgroup

theorem GroupsSeparate.upsert (h : GroupsSeparate jobs) (hcheck : validatePbsGroups job jobs = .ok ()) :
    GroupsSeparate (Keyed.upsert Ipc.Job.id job jobs) := by
  have hnew : ∀ other ∈ jobs, other.id ≠ job.id → ∀ serverId backupId otherId,
      job.destination = .pbs serverId backupId → other.destination = .pbs serverId otherId →
        GroupsApart other job := by
    intro other hother hid serverId backupId otherId hjob hotherJob
    exact ((validatePbsGroups_ok_iff hjob).mp hcheck).2 other hother hid ⟨otherId, hotherJob⟩
  intro first hfirst second hsnd hid serverId backupId otherId hfirstAt hsecondAt
  rcases Keyed.mem_of_mem_upsert hfirst with rfl | hfirstOld
  · rcases Keyed.mem_of_mem_upsert hsnd with rfl | hsecondOld
    · exact absurd rfl hid
    · exact hnew second hsecondOld hid serverId backupId otherId hfirstAt hsecondAt
  · rcases Keyed.mem_of_mem_upsert hsnd with rfl | hsecondOld
    · exact (hnew first hfirstOld (Ne.symm hid) serverId otherId backupId hsecondAt hfirstAt).symm
    · exact h first hfirstOld second hsecondOld hid serverId backupId otherId hfirstAt hsecondAt

end Groups

end PbsGui.Engine
