import PbsGui.Engine.Handler

/-!
# Backup streams and their groups

A stream is a series of backups that a restore reads as one: the file backups of a job,
or the fulls or the logs of one of its databases.  Which of these a run can write is
decided by the plan rules; the check of a job before it is saved goes by the list of
`job_pbs_groups`.  The two agree, so that along any requests the streams of the stored jobs
stay in groups of their own.
-/

namespace PbsGui.Engine

open Lib List

/-- The protection plan as the per-database rules see it. -/
def planKind : Ipc.SqlProtection → PlanKind
  | .pointInTime _ _ => .pointInTime
  | .dailyRestorePoints _ => .restorePoints
  | .secondaryCopy _ => .secondaryCopy

/-- A series of backups of one job. -/
inductive BackupStream
  | files (jobId : String)
  | sql (jobId database : String) (kind : SqlBackupType)
  deriving DecidableEq

/-- A run of the job can write the stream to a group on a server. -/
inductive Writes (job : Ipc.Job) (serverId : String) : BackupStream → String → Prop
  | files {sources excludes : List String} {changeDetection : Bool} {backupId : String}
      (hsource : job.source = .files sources excludes changeDetection)
      (hdestination : job.destination = .pbs serverId backupId) :
      Writes job serverId (.files job.id) backupId
  | sql {connectionId backupId database : String} {databases : List String}
      {protection : Ipc.SqlProtection} {run : SqlRun} {state : DbState} {localFull copyOnly : Bool}
      {kind : SqlBackupType} {note : Option String}
      (hsource : job.source = .sql connectionId databases protection)
      (hdestination : job.destination = .pbs serverId backupId) (hdatabase : database ∈ databases)
      (hdecide : Plan.decide (planKind protection) run state localFull =
        .backup kind copyOnly note) :
      Writes job serverId (.sql job.id database kind) (sqlGroupAndArchive backupId database kind).1

/-- Different streams that the jobs can write on one server use different groups. -/
def StreamsSeparate (jobs : List Ipc.Job) : Prop :=
  ∀ job ∈ jobs, ∀ other ∈ jobs, ∀ serverId stream group otherStream otherGroup,
    Writes job serverId stream group → Writes other serverId otherStream otherGroup →
      stream ≠ otherStream → group ≠ otherGroup

/-- The job backs up databases to a server, and lists one of them twice. -/
def ListsTwice (job : Ipc.Job) : Prop :=
  ∃ serverId backupId connectionId databases protection,
    job.destination = .pbs serverId backupId ∧
      job.source = .sql connectionId databases protection ∧ ¬ databases.Nodup

def BackupStream.jobId : BackupStream → String
  | files jobId | sql jobId _ _ => jobId

/-- The streams of a database under a plan, with their groups, in the order of
`jobPbsGroups`. -/
def databaseStreams (jobId backupId : String) (protection : Ipc.SqlProtection) (database : String) :
    List (BackupStream × String) :=
  (.sql jobId database .full, (sqlGroupAndArchive backupId database .full).1) ::
    if takesLogs protection then
      [(.sql jobId database .log, (sqlGroupAndArchive backupId database .log).1)]
    else []

def jobStreams (job : Ipc.Job) : List (BackupStream × String) :=
  match job.destination with
  | .folder _ => []
  | .pbs _ backupId =>
    match job.source with
    | .files _ _ _ => [(.files job.id, backupId)]
    | .sql _ databases protection => databases.flatMap (databaseStreams job.id backupId protection)

section Streams

variable {job other : Ipc.Job} {jobs : List Ipc.Job} {serverId group : String} {stream : BackupStream}

theorem jobStreams_groups (job : Ipc.Job) :
    (jobStreams job).map Prod.snd = (jobPbsGroups job).map Prod.fst := by
  unfold jobStreams jobPbsGroups
  cases job.destination with
  | folder => rfl
  | pbs =>
    cases job.source with
    | files => rfl
    | sql =>
      simp only [map_flatMap]
      congr 1
      funext database
      simp only [databaseStreams, map_cons]
      split <;> rfl

theorem decide_backup_iff {plan : PlanKind} {kind : SqlBackupType} :
    (∃ run state localFull copyOnly note,
        Plan.decide plan run state localFull = .backup kind copyOnly note) ↔
      kind = .full ∨ kind = .log ∧ plan = .pointInTime := by
  constructor
  · rintro ⟨run, state, localFull, copyOnly, note, h⟩
    revert h
    fun_cases Plan.decide plan run state localFull <;> simp_all
  · -- a standalone database with a log chain and an earlier full shows that each is taken
    rintro (rfl | ⟨rfl, rfl⟩)
    · obtain ⟨copyOnly, hfull⟩ := @Plan.decide_full plan ⟨.standalone, true, false, false, true⟩ true
        (by cases plan <;> simp [Plan.TakesFull])
      exact ⟨_, _, _, copyOnly, _, hfull⟩
    · exact ⟨.log, ⟨.standalone, true, false, false, true⟩, true, false, none, rfl⟩

variable {protection : Ipc.SqlProtection}

theorem takesLogs_iff : takesLogs protection = true ↔ planKind protection = .pointInTime := by
  cases protection <;> simp [takesLogs, planKind]

theorem mem_databaseStreams {jobId backupId database : String} :
    (stream, group) ∈ databaseStreams jobId backupId protection database ↔
      ∃ kind, (kind = .full ∨ kind = .log ∧ planKind protection = .pointInTime) ∧
        stream = .sql jobId database kind ∧ group = (sqlGroupAndArchive backupId database kind).1 := by
  rw [← takesLogs_iff, databaseStreams]
  split
  · rename_i hlogs
    simp [hlogs]
  · rename_i hlogs
    simp [hlogs]

theorem writes_iff :
    Writes job serverId stream group ↔
      (∃ backupId, job.destination = .pbs serverId backupId) ∧ (stream, group) ∈ jobStreams job := by
  constructor
  · intro h
    cases h with
    | files hsrc hdest =>
      exact ⟨⟨_, hdest⟩, by simp [jobStreams, hdest, hsrc]⟩
    | sql hsrc hdest hdb hdec =>
      refine ⟨⟨_, hdest⟩, ?_⟩
      simp only [jobStreams, hdest, hsrc, mem_flatMap, mem_databaseStreams]
      exact ⟨_, hdb, _, decide_backup_iff.mp ⟨_, _, _, _, _, hdec⟩, rfl, rfl⟩
  · rintro ⟨⟨backupId, hdest⟩, hmem⟩
    cases hsrc : job.source with
    | files =>
      simp only [jobStreams, hdest, hsrc, mem_singleton, Prod.mk.injEq] at hmem
      obtain ⟨rfl, rfl⟩ := hmem
      exact .files hsrc hdest
    | sql =>
      simp only [jobStreams, hdest, hsrc, mem_flatMap, mem_databaseStreams] at hmem
      obtain ⟨database, hdb, kind, hkind, rfl, rfl⟩ := hmem
      obtain ⟨run, state, localFull, copyOnly, note, hdec⟩ := decide_backup_iff.mpr hkind
      exact .sql hsrc hdest hdb hdec

theorem Writes.jobId (h : Writes job serverId stream group) : stream.jobId = job.id := by
  cases h <;> rfl

theorem jobStreams_nodup (h : ¬ ListsTwice job) : ((jobStreams job).map Prod.fst).Nodup := by
  unfold jobStreams
  cases hdest : job.destination with
  | folder => exact nodup_nil
  | pbs serverId backupId =>
    cases hsrc : job.source with
    | files => exact nodup_singleton _
    | sql connectionId databases protection =>
      have hdbs : databases.Nodup := by
        by_contra htwice
        exact h ⟨serverId, backupId, connectionId, databases, protection, hdest, hsrc, htwice⟩
      simp only [map_flatMap]
      refine nodup_flatMap.mpr ⟨fun database _ => ?_, hdbs.imp ?_⟩
      · simp only [databaseStreams]
        split <;> simp
      · intro first second hne
        refine disjoint_left.mpr fun found hfirst hsnd => hne ?_
        obtain ⟨⟨_, _⟩, hfound, rfl⟩ := mem_map.mp hfirst
        obtain ⟨⟨_, _⟩, hfound', heq⟩ := mem_map.mp hsnd
        obtain ⟨kind, -, hstream, -⟩ := mem_databaseStreams.mp hfound
        obtain ⟨kind', -, hstream', -⟩ := mem_databaseStreams.mp hfound'
        simp only [hstream, hstream'] at heq
        injection heq with _ hdb
        exact hdb.symm

/-- A job whose groups are distinct lists no database twice: the groups of the fulls
are among them. -/
theorem not_listsTwice_of_nodup (h : ((jobPbsGroups job).map Prod.fst).Nodup) : ¬ ListsTwice job := by
  rintro ⟨serverId, backupId, connectionId, databases, protection, hdest, hsrc, htwice⟩
  refine htwice (List.Nodup.of_map (fun db => (sqlGroupAndArchive backupId db .full).1) (h.sublist ?_))
  simp only [jobPbsGroups, hdest, hsrc]
  clear h htwice hdest hsrc
  induction databases with
  | nil => exact List.Sublist.refl _
  | cons database rest ih =>
    rw [map_cons, flatMap_cons, cons_append, map_cons, map_append]
    exact (ih.trans (sublist_append_right _ _)).cons_cons _

/-- The groups of a job are distinct exactly if it lists no database twice and no two of
its streams share a group. -/
theorem groups_nodup_iff :
    ((jobPbsGroups job).map Prod.fst).Nodup ↔
      ¬ ListsTwice job ∧ ∀ first ∈ jobStreams job, ∀ second ∈ jobStreams job,
        first.2 = second.2 → first.1 = second.1 := by
  constructor
  · intro h
    refine ⟨not_listsTwice_of_nodup h, fun first hfirst second hsnd hgroup => ?_⟩
    rw [← jobStreams_groups] at h
    exact congrArg Prod.fst (inj_on_of_nodup_map h hfirst hsnd hgroup)
  · rintro ⟨honce, hinj⟩
    rw [← jobStreams_groups]
    refine (List.Nodup.of_map _ (jobStreams_nodup honce)).map_on fun first hfirst second hsnd hgroup => ?_
    exact Prod.ext (hinj first hfirst second hsnd hgroup) hgroup

/-- What the checks of saved jobs establish. -/
structure GroupsInv (jobs : List Ipc.Job) : Prop where
  ids : (jobs.map Ipc.Job.id).Nodup
  own : ∀ job ∈ jobs, ((jobPbsGroups job).map Prod.fst).Nodup
  separate : GroupsSeparate jobs

theorem GroupsInv.empty : GroupsInv [] :=
  ⟨nodup_nil, (fun _ hjob => nomatch hjob), (fun _ hjob => nomatch hjob)⟩

theorem GroupsInv.remove (h : GroupsInv jobs) (id : String) :
    GroupsInv (Keyed.remove Ipc.Job.id id jobs) := by
  have hsub : Keyed.remove Ipc.Job.id id jobs ⊆ jobs := fun _ hmem => (mem_filter.mp hmem).1
  exact ⟨Keyed.nodup_remove h.ids, fun job hjob => h.own job (hsub hjob), h.separate.subset hsub⟩

theorem nodup_of_validatePbsGroups (h : validatePbsGroups job jobs = .ok ()) :
    ((jobPbsGroups job).map Prod.fst).Nodup := by
  cases hdest : job.destination with
  | folder => simp [jobPbsGroups, hdest]
  | pbs => exact ((validatePbsGroups_ok_iff hdest).mp h).1

theorem GroupsInv.upsert (h : GroupsInv jobs) (hcheck : validatePbsGroups job jobs = .ok ()) :
    GroupsInv (Keyed.upsert Ipc.Job.id job jobs) := by
  refine ⟨Keyed.nodup_upsert h.ids, fun other hother => ?_, h.separate.upsert hcheck⟩
  rcases Keyed.mem_of_mem_upsert hother with rfl | hold
  · exact nodup_of_validatePbsGroups hcheck
  · exact h.own other hold

theorem GroupsInv.handle {formats : StoreFormats} {env : RequestEnv} {stores : EngineStores}
    (request : Request) (h : GroupsInv stores.jobs.store.items) :
    GroupsInv (handle formats env request stores).1.jobs.store.items := by
  cases request with
  | saveJob =>
    simp only [Engine.handle, saveJob]
    split
    · exact h
    · split
      · exact h
      · rename_i hcheck
        exact ListStore.mutate_keeps h (h.upsert hcheck)
  | deleteJob id => exact ListStore.mutate_keeps h (h.remove id)
  | listJobs | listSqlConnections | saveSqlConnection | deleteSqlConnection | listPbsServers
    | savePbsServer | deletePbsServer => exact h

theorem GroupsInv.streamsSeparate (h : GroupsInv jobs) : StreamsSeparate jobs := by
  rintro job hjob other hother serverId stream group otherStream _ hwrites hotherWrites hne rfl
  obtain ⟨⟨backupId, hdest⟩, hstream⟩ := writes_iff.mp hwrites
  obtain ⟨⟨otherId, hotherDestination⟩, hotherStream⟩ := writes_iff.mp hotherWrites
  by_cases hid : other.id = job.id
  · obtain rfl := inj_on_of_nodup_map h.ids hother hjob hid
    exact hne ((groups_nodup_iff.mp (h.own other hother)).2 _ hstream _ hotherStream rfl)
  · have hapart := h.separate job hjob other hother hid serverId backupId otherId hdest
      hotherDestination
    refine hapart group ?_ ?_
    · rw [← jobStreams_groups]
      exact mem_map_of_mem hotherStream
    · rw [← jobStreams_groups]
      exact mem_map_of_mem hstream

/-- A job that lists no database twice, and that can be stored with all streams in
groups of their own, passes the check. -/
theorem validatePbsGroups_of_streamsSeparate (honce : ¬ ListsTwice job)
    (h : StreamsSeparate (Keyed.upsert Ipc.Job.id job jobs)) : validatePbsGroups job jobs = .ok () := by
  cases hdest : job.destination with
  | folder => simp [validatePbsGroups, hdest]
  | pbs serverId backupId =>
    refine (validatePbsGroups_ok_iff hdest).mpr ⟨?_, ?_⟩
    · refine groups_nodup_iff.mpr ⟨honce, ?_⟩
      rintro ⟨stream, group⟩ hfirst ⟨otherStream, _⟩ hsnd rfl
      by_contra hne
      exact h job Keyed.mem_upsert_self job Keyed.mem_upsert_self serverId stream group otherStream
        group (writes_iff.mpr ⟨⟨backupId, hdest⟩, hfirst⟩)
        (writes_iff.mpr ⟨⟨backupId, hdest⟩, hsnd⟩) hne rfl
    · rintro other hother hid ⟨otherId, hotherDestination⟩ group hgroup hjobGroup
      rw [← jobStreams_groups] at hgroup hjobGroup
      obtain ⟨⟨otherStream, _⟩, hotherStream, rfl⟩ := mem_map.mp hgroup
      obtain ⟨⟨stream, group⟩, hstream, rfl⟩ := mem_map.mp hjobGroup
      have hwrites := writes_iff.mpr ⟨⟨backupId, hdest⟩, hstream⟩
      have hotherWrites := writes_iff.mpr ⟨⟨otherId, hotherDestination⟩, hotherStream⟩
      -- the streams belong to jobs with different ids
      have hne : stream ≠ otherStream := by
        rintro rfl
        exact hid (hotherWrites.jobId.symm.trans hwrites.jobId)
      exact h job Keyed.mem_upsert_self other (Keyed.mem_upsert_of_ne hother hid) serverId stream
        group otherStream group hwrites hotherWrites hne rfl

end Streams

/-- Handle requests one after another, each in its circumstances. -/
def handleAll (formats : StoreFormats) (requests : List (RequestEnv × Request))
    (stores : EngineStores) : EngineStores :=
  requests.foldl (fun stores request => (handle formats request.1 request.2 stores).1) stores

theorem GroupsInv.handleAll {formats : StoreFormats} {requests : List (RequestEnv × Request)}
    {stores : EngineStores} (h : GroupsInv stores.jobs.store.items) :
    GroupsInv (handleAll formats requests stores).jobs.store.items := by
  induction requests generalizing stores with
  | nil => exact h
  | cons request rest ih => exact ih (h.handle request.2)

/-- After any requests on an empty store, different streams that the stored jobs can
write on a server use different groups; and the group check refuses a job exactly if
two streams would share a group with it stored, or if it lists a database twice. -/
theorem requests_keep_streams_separate {formats : StoreFormats} {stores : EngineStores}
    (hempty : stores.jobs.store.items = []) (requests : List (RequestEnv × Request)) :
    let jobs := (handleAll formats requests stores).jobs.store.items
    StreamsSeparate jobs ∧ ∀ job, validateJob job = .ok () →
      ((∃ message, validatePbsGroups job jobs = .error message) ↔
        ¬ StreamsSeparate (Keyed.upsert Ipc.Job.id job jobs) ∨ ListsTwice job) := by
  intro jobs
  have hinv : GroupsInv jobs := GroupsInv.handleAll (hempty ▸ .empty)
  refine ⟨hinv.streamsSeparate, fun job _ => ?_⟩
  constructor
  · rintro ⟨message, hrefused⟩
    by_contra hfine
    obtain ⟨hseparate, honce⟩ := not_or.mp hfine
    rw [validatePbsGroups_of_streamsSeparate honce (not_not.mp hseparate)] at hrefused
    cases hrefused
  · intro hcollides
    cases hcheck : validatePbsGroups job jobs with
    | error message => exact ⟨message, rfl⟩
    | ok =>
      rcases hcollides with hshared | htwice
      · exact absurd (hinv.upsert hcheck).streamsSeparate hshared
      · exact absurd htwice (not_listsTwice_of_nodup (nodup_of_validatePbsGroups hcheck))

def sampleEmptyStores : EngineStores := { sampleReadOnly with jobs := sampleStore }

def sampleEnv : RequestEnv := { persist := { signing := sampleSigning } }

/-- A second job with the backup id of the first is refused: their streams would share
a group. -/
theorem sharedGroup_refused :
    let jobs := (handleAll sampleFormats [(sampleEnv, .saveJob sampleFileJob)]
      sampleEmptyStores).jobs.store.items
    jobs = [sampleFileJob] ∧ StreamsSeparate jobs ∧
      ¬ StreamsSeparate (Keyed.upsert Ipc.Job.id { sampleFileJob with id := "b" } jobs) := by
  have hresult := @requests_keep_streams_separate sampleFormats sampleEmptyStores rfl
    [(sampleEnv, .saveJob sampleFileJob)]
  refine ⟨rfl, hresult.1, ?_⟩
  refine ((hresult.2 { sampleFileJob with id := "b" } rfl).mp ⟨_, rfl⟩).resolve_right ?_
  rintro ⟨_, _, _, _, _, _, hsource, _⟩
  cases hsource

def sampleTwiceJob : Ipc.Job :=
  { id := "a", name := "sql", source := .sql "c" ["sales", "sales"] (.dailyRestorePoints (.daily 22 0)),
    destination := .pbs "s" "sql1", schedule := .manual }

/-- The job is refused, although it has one stream only. -/
theorem twiceListed_refused :
    validateJob sampleTwiceJob = .ok () ∧
      (∃ message, validatePbsGroups sampleTwiceJob sampleEmptyStores.jobs.store.list = .error message ∧
        (handle sampleFormats sampleEnv (.saveJob sampleTwiceJob) sampleEmptyStores).2 =
          .error message) ∧
      StreamsSeparate (Keyed.upsert Ipc.Job.id sampleTwiceJob sampleEmptyStores.jobs.store.items) := by
  have honly : ∀ serverId stream group, Writes sampleTwiceJob serverId stream group →
      stream = .sql "a" "sales" .full := by
    intro serverId stream group hwrites
    have hmem := (writes_iff.mp hwrites).2
    simp only [jobStreams, sampleTwiceJob, databaseStreams, takesLogs, flatMap_cons] at hmem
    simp at hmem
    exact hmem.1
  refine ⟨rfl, ⟨_, rfl, rfl⟩, ?_⟩
  intro job hjob other hother serverId stream group otherStream otherGroup hwrites hotherWrites hne
  obtain rfl := mem_singleton.mp hjob
  obtain rfl := mem_singleton.mp hother
  exact absurd ((honly _ _ _ hwrites).trans (honly _ _ _ hotherWrites).symm) hne

end PbsGui.Engine
