import PbsGui.Engine.Scheduler
import PbsGui.Engine.StoreCalls

/-!
# Runs that the scheduler starts

A due decision compares a schedule with a time: for a file job the last run in the
listed job, for the fulls and the logs of a SQL job the last attempt in the state
file.  That time is written on every path on which a run can end, before the scheduler looks at
the job again.  So it is never older than the last run the scheduler started, which keeps the
runs apart.
-/

namespace PbsGui.Engine

open Lib Relation List

/-- The schedule that a kind of run follows; log backups run at an interval. -/
def cadence (job : Ipc.Job) (kind : SqlRun) : Ipc.Schedule :=
  match job.source, kind with
  | .files _ _ _, _ => job.schedule
  | .sql _ _ (.pointInTime full _), .full => full
  | .sql _ _ (.pointInTime _ logIntervalMinutes), .log => .interval logIntervalMinutes
  | .sql _ _ (.dailyRestorePoints schedule), _ | .sql _ _ (.secondaryCopy schedule), _ => schedule

/-- The time in the state file that gates a kind of run. -/
def SchedState.readTime (state : SchedState) : SqlRun → Option Int
  | .full => state.fullAttempt.or state.full
  | .log => (state.logAttempt.or state.log).or state.full

/-- The time that a due decision compares a job's schedule with. -/
def readTime (files : String → SchedFile) (job : Ipc.Job) (kind : SqlRun) : Option Int :=
  if job.isSql then (SqlSched.load true (files job.id)).readTime kind else job.lastRun

theorem scheduleDue_of_dueKind {zone : TimeZone} {files : String → SchedFile} {job : Ipc.Job}
    {now : Int} {kind : SqlRun} (h : dueKind zone files job now = some kind) :
    scheduleDue zone (cadence job kind) (readTime files job kind) now = true := by
  unfold dueKind at h
  unfold cadence readTime Ipc.Job.isSql
  cases hsrc : job.source with
  | files =>
    simp only [hsrc, Option.ite_none_right_eq_some] at h ⊢
    exact h.1
  | sql connectionId databases protection =>
    simp only [hsrc] at h ⊢
    unfold sqlDueKind at h
    cases protection with
    | dailyRestorePoints schedule | secondaryCopy schedule =>
      simp only [Option.ite_none_right_eq_some, Option.some.injEq] at h
      obtain ⟨hdue, rfl⟩ := h
      exact hdue
    | pointInTime =>
      simp only at h
      split at h
      · rename_i hdue
        cases h
        exact hdue
      · simp only [Option.ite_none_right_eq_some, Option.some.injEq] at h
        obtain ⟨hdue, rfl⟩ := h
        exact hdue

/-- The file's time for a kind of run is a given time or later. -/
def FileSince (kind : SqlRun) (time : Int) (file : SchedFile) : Prop :=
  ∃ read, (SqlSched.load true file).readTime kind = some read ∧ time ≤ read

section Writes

variable {kind : SqlRun} {time now : Int} {file file' : SchedFile}

theorem FileSince.update {change : SchedState → SchedState} (h : FileSince kind time file)
    (hle : time ≤ now)
    (hchange : ∀ state, (change state).readTime kind = state.readTime kind ∨
      (change state).readTime kind = some now) :
    FileSince kind time (SqlSched.update {} change file) := by
  obtain ⟨read, hread, htime⟩ := h
  have hload : SqlSched.load true (SqlSched.update {} change file) =
      change (SqlSched.load true file) := rfl
  unfold FileSince
  rw [hload]
  rcases hchange (SqlSched.load true file) with hsame | hnow
  · exact ⟨read, hsame.trans hread, htime⟩
  · exact ⟨now, hnow, hle⟩

theorem FileSince.chainWrite (h : FileSince kind time file) (hle : time ≤ now)
    (hwrite : ChainWrite now file file') : FileSince kind time file' := by
  cases hwrite with
  | promoted =>
    refine h.update hle fun _ => .inr ?_
    cases kind <;> rfl
  | noteNoChain =>
    simp only [SqlSched.noteNoChain]
    refine h.update hle fun state => .inl ?_
    split <;> rfl
  | clearNoChain =>
    unfold SqlSched.clearNoChain
    split
    · exact h.update hle fun _ => .inl rfl
    · exact h

theorem FileSince.recordIn (h : FileSince kind time file) (hle : time ≤ now) (result : RunResult)
    (taken : SqlRun) : FileSince kind time (result.recordIn taken now file) := by
  cases taken <;> cases result <;>
    simp only [RunResult.recordIn, SqlSched.recordFull, SqlSched.recordFullAttempt,
      SqlSched.recordLog, SqlSched.recordLogAttempt] <;>
    refine h.update hle fun _ => ?_ <;> cases kind <;>
    first
    | exact .inl rfl
    | exact .inr rfl

theorem fileSince_recordIn (hle : time ≤ now) (result : RunResult) (file : SchedFile) :
    FileSince kind time (result.recordIn kind now file) := by
  cases kind <;> cases result <;> exact ⟨now, rfl, hle⟩

end Writes

/-- A run that the scheduler started for a job. -/
def RunStart.ScheduledFor (start : RunStart) (id : String) : Prop :=
  start.jobId = id ∧ start.tick.isSome

/-- The time a decision reads is that of a start or later. -/
def ReadsSince (files : String → SchedFile) (job : Ipc.Job) (start : RunStart) : Prop :=
  ∃ read, readTime files job start.kind = some read ∧ start.time ≤ read

/-- A kind of run of a job was due at a time, by a decision that had seen the end of
every such run the scheduler had started. -/
def DueAfter (zone : TimeZone) (job : Ipc.Job) (kind : SqlRun) (older : List RunStart) (now : Int) :
    Prop :=
  ∃ read, scheduleDue zone (cadence job kind) read now = true ∧
    ∀ start ∈ older, start.ScheduledFor job.id → start.kind = kind →
      ∃ last, read = some last ∧ start.time ≤ last

/-- A history, newest first, in which each run that the scheduler started for a job was
due when it was started. -/
inductive Justified (zone : TimeZone) (job : Ipc.Job) : List RunStart → Prop
  | nil : Justified zone job []
  | other {start : RunStart} {older : List RunStart} (h : Justified zone job older)
      (hother : ¬ start.ScheduledFor job.id) : Justified zone job (start :: older)
  | scheduled {kind : SqlRun} {time tick : Int} {older : List RunStart}
      (h : Justified zone job older) (hle : tick ≤ time)
      (hdue : DueAfter zone job kind older tick) :
      Justified zone job (⟨job.id, kind, time, some tick⟩ :: older)

theorem Justified.of_append {zone : TimeZone} {job : Ipc.Job} {newer older : List RunStart}
    (h : Justified zone job (newer ++ older)) : Justified zone job older := by
  induction newer with
  | nil => exact h
  | cons start newer ih =>
    cases h with
    | other h | scheduled h => exact ih h

theorem Justified.dueAfter {zone : TimeZone} {job : Ipc.Job} {start : RunStart}
    {older : List RunStart} (h : Justified zone job (start :: older))
    (hstart : start.ScheduledFor job.id) :
    ∃ tick, start.tick = some tick ∧ tick ≤ start.time ∧
      DueAfter zone job start.kind older tick := by
  cases h with
  | other _ hother => exact absurd hstart hother
  | scheduled _ hle hdue => exact ⟨_, rfl, hle, hdue⟩

namespace SchedulerLoop

def rest : SchedulerLoop → List Ipc.Job
  | sleeping => []
  | ticking _ rest | waiting _ rest _ => rest

def listed : SchedulerLoop → List Ipc.Job
  | sleeping => []
  | ticking _ rest => rest
  | waiting _ rest task => task.job :: rest

end SchedulerLoop

/-- The task is the run of a start that has yet to be recorded: for a SQL job in the
state file at the end of the run, for a file job in the store after it. -/
def RunTask.Unrecorded (task : RunTask) (start : RunStart) : Prop :=
  task.job.id = start.jobId ∧ task.kind = start.kind ∧
    match task.phase with
    | .spawned => False
    | .running => True
    | .recorded _ | .ended _ => task.job.isSql = false

/-- The scheduler waits for a start that has yet to be recorded. -/
def SchedulerLoop.Pending (loop : SchedulerLoop) (start : RunStart) : Prop :=
  match loop with
  | waiting _ _ task => task.Unrecorded start
  | sleeping | ticking _ _ => False

/-- A copy of a job has its source and schedule. -/
def SameSetup (copy job : Ipc.Job) : Prop :=
  copy.source = job.source ∧ copy.schedule = job.schedule

theorem SameSetup.cadence {copy job : Ipc.Job} (h : SameSetup copy job) (kind : SqlRun) :
    cadence copy kind = Engine.cadence job kind := by
  unfold Engine.cadence
  rw [h.1, h.2]

theorem SameSetup.isSql {copy job : Ipc.Job} (h : SameSetup copy job) : copy.isSql = job.isSql := by
  unfold Ipc.Job.isSql
  rw [h.1]

/-- What holds of a job that is not edited: its copies are alike, and whatever copy a
decision will look at, the time it reads has seen the runs the scheduler started. -/
structure SchedulerInv (zone : TimeZone) (job : Ipc.Job) (state : EngineState) : Prop where
  nodup : (state.jobs.map Ipc.Job.id).Nodup
  listed_nodup : (state.loop.listed.map Ipc.Job.id).Nodup
  copies : ∀ copy, copy ∈ state.jobs ∨ copy ∈ state.loop.listed → copy.id = job.id →
    SameSetup copy job
  past : ∀ start ∈ state.starts, start.time ≤ state.clock
  history : Justified zone job state.starts
  recorded : ∀ copy, copy ∈ state.jobs ∨ copy ∈ state.loop.rest → copy.id = job.id →
    ∀ start ∈ state.starts, start.ScheduledFor job.id →
      ReadsSince state.files copy start ∨ state.loop.Pending start
  tick : ∀ now rest, state.loop = .ticking now rest → now ≤ state.clock
  due : ∀ now rest task, state.loop = .waiting now rest task → now ≤ state.clock ∧
    (task.phase = .spawned → task.job.id = job.id →
      DueAfter zone job task.kind state.starts now)

section TaskSteps

variable {job copy : Ipc.Job} {state state' : EngineState} {task task' : RunTask}
  {start : RunStart} {tick : Option Int} {files : String → SchedFile}

theorem readsSince_sql (h : copy.isSql = true) :
    ReadsSince files copy start ↔ FileSince start.kind start.time (files copy.id) := by
  unfold ReadsSince readTime
  rw [if_pos h]
  rfl

theorem readsSince_files (h : copy.isSql = false) :
    ReadsSince files copy start ↔ ∃ read, copy.lastRun = some read ∧ start.time ≤ read := by
  unfold ReadsSince readTime
  rw [if_neg (by simp [h])]

theorem fileSince_setFile {kind : SqlRun} {time : Int} {id changed : String} {file : SchedFile}
    (h : FileSince kind time (state.files id))
    (hfile : FileSince kind time (state.files changed) → FileSince kind time file) :
    FileSince kind time ((state.setFile changed file).files id) := by
  show FileSince kind time (if id = changed then file else state.files id)
  split
  · rename_i heq
    rw [heq] at h
    exact hfile h
  · exact h

namespace TaskStep

variable (h : TaskStep tick state task state' task')

include h

theorem not_spawned : task'.phase ≠ .spawned := by
  cases h with
  | chain hphase =>
    rw [hphase]
    simp
  | claim | refuse | finish | release => simp

theorem starts :
    state'.starts = state.starts ∨
      task.phase = .spawned ∧ task'.phase = .running ∧ state' = state.claim tick task := by
  cases h with
  | claim hphase => exact .inr ⟨hphase, rfl, rfl⟩
  | refuse | chain | finish | release => exact .inl rfl

theorem past (hpast : ∀ start ∈ state.starts, start.time ≤ state.clock) :
    ∀ start ∈ state'.starts, start.time ≤ state'.clock := by
  rw [h.frame.2.1]
  intro start hstart
  rcases h.starts with hsame | ⟨-, -, rfl⟩
  · rw [hsame] at hstart
    exact hpast start hstart
  · rcases mem_cons.mp hstart with rfl | hmem
    · exact Int.le_refl _
    · exact hpast start hmem

theorem readsSince (hpast : start.time ≤ state.clock) (hread : ReadsSince state.files copy start) :
    ReadsSince state'.files copy start := by
  cases hsql : copy.isSql with
  | false => rwa [readsSince_files hsql] at hread ⊢
  | true =>
    rw [readsSince_sql hsql] at hread ⊢
    cases h with
    | claim | refuse | release => exact hread
    | chain _ _ hwrite => exact fileSince_setFile hread fun hfile => hfile.chainWrite hpast hwrite
    | finish _ result =>
      refine fileSince_setFile hread fun hfile => ?_
      split
      · exact hfile.recordIn hpast result task.kind
      · exact hfile

theorem recorded (hid : copy.id = start.jobId)
    (hsql : task.job.id = copy.id → task.job.isSql = copy.isSql) (hpast : start.time ≤ state.clock)
    (hstart : ReadsSince state.files copy start ∨ task.Unrecorded start) :
    ReadsSince state'.files copy start ∨ task'.Unrecorded start := by
  rcases hstart with hread | ⟨hjob, hkind, hphase⟩
  · exact .inl (h.readsSince hpast hread)
  · cases h with
    | claim hspawn | refuse hspawn =>
      rw [hspawn] at hphase
      exact hphase.elim
    | chain => exact .inr ⟨hjob, hkind, hphase⟩
    | release hrecorded =>
      rw [hrecorded] at hphase
      exact .inr ⟨hjob, hkind, hphase⟩
    | finish _ result =>
      cases htask : task.job.isSql with
      | false => exact .inr ⟨hjob, hkind, htask⟩
      | true =>
        have hcopy : copy.isSql = true := (hsql (hjob.trans hid.symm)).symm.trans htask
        have hfile : (state.finish task result).files copy.id =
            result.recordIn task.kind state.clock (state.files task.job.id) := by
          show (if copy.id = task.job.id then _ else _) = _
          rw [if_pos (hid.trans hjob.symm), htask]
          rfl
        rw [readsSince_sql hcopy, hfile, hkind]
        exact .inl (fileSince_recordIn hpast result _)

end TaskStep

end TaskSteps

/-! ### Every step -/

namespace SchedulerInv

section Steps

variable {zone : TimeZone} {job : Ipc.Job} {state state' : EngineState} {task task' : RunTask}
  {now : Int} {rest : List Ipc.Job} {status : String}

theorem initial {clock : Int} {jobs : List Ipc.Job} {files : String → SchedFile}
    (hnodup : (jobs.map Ipc.Job.id).Nodup) (hjob : job ∈ jobs) :
    SchedulerInv zone job (.start clock jobs files) where
  nodup := hnodup
  listed_nodup := nodup_nil
  copies := by
    rintro copy (hcopy | hcopy) hid
    · rw [inj_on_of_nodup_map hnodup hcopy hjob hid]
      exact ⟨rfl, rfl⟩
    · cases hcopy
  past := by simp [EngineState.start]
  history := .nil
  recorded := by simp [EngineState.start]
  tick := by simp [EngineState.start]
  due := by simp [EngineState.start]

section

variable (h : SchedulerInv zone job state)

include h

theorem advance {later : Int} (hle : state.clock ≤ later) :
    SchedulerInv zone job { state with clock := later } :=
  { h with
    past := fun start hstart => (h.past start hstart).trans hle
    tick := fun now rest hloop => (h.tick now rest hloop).trans hle
    due := fun now rest task hloop => (h.due now rest task hloop).imp_left (·.trans hle) }

theorem withJobs {jobs : List Ipc.Job} (hnodup : (jobs.map Ipc.Job.id).Nodup)
    (hcops : ∀ copy ∈ jobs, copy.id = job.id → SameSetup copy job ∧
      ∀ start ∈ state.starts, start.ScheduledFor job.id → ReadsSince state.files copy start ∨
        state.loop.Pending start) :
    SchedulerInv zone job { state with jobs := jobs } := by
  refine { h with nodup := hnodup, copies := ?_, recorded := ?_ }
  · rintro copy (hcopy | hcopy) hid
    · exact (hcops copy hcopy hid).1
    · exact h.copies copy (.inr hcopy) hid
  · rintro copy (hcopy | hcopy) hid
    · exact (hcops copy hcopy hid).2
    · exact h.recorded copy (.inr hcopy) hid

theorem edit {call : JobCall} (hcall : call.jobId ≠ job.id) :
    SchedulerInv zone job { state with jobs := call.apply state.jobs } := by
  refine h.withJobs (call.nodup_apply h.nodup) fun copy hcopy hid => ?_
  have hmem := JobCall.mem_of_mem_apply hcopy (by rwa [hid])
  exact ⟨h.copies copy (.inl hmem) hid, h.recorded copy (.inl hmem) hid⟩

theorem listing (hnow : now ≤ state.clock) (hnodup : (rest.map Ipc.Job.id).Nodup)
    (hcops : ∀ copy ∈ rest, copy.id = job.id → SameSetup copy job)
    (hrecorded : ∀ copy, copy ∈ state.jobs ∨ copy ∈ rest → copy.id = job.id →
      ∀ start ∈ state.starts, start.ScheduledFor job.id → ReadsSince state.files copy start) :
    SchedulerInv zone job { state with loop := .ticking now rest } where
  nodup := h.nodup
  listed_nodup := hnodup
  copies := by
    rintro copy (hcopy | hcopy) hid
    · exact h.copies copy (.inl hcopy) hid
    · exact hcops copy hcopy hid
  past := h.past
  history := h.history
  recorded copy hcopy hid start hstart hfor := .inl (hrecorded copy hcopy hid start hstart hfor)
  tick := by
    rintro _ _ ⟨⟩
    exact hnow
  due := by simp

theorem tickStart (hloop : state.loop = .sleeping) :
    SchedulerInv zone job { state with loop := .ticking state.clock state.jobs } := by
  refine h.listing (Int.le_refl _) h.nodup (fun copy hcopy => h.copies copy (.inl hcopy)) ?_
  intro copy hcopy hid start hstart hfor
  have hread := h.recorded copy (.inl (or_self_iff.mp hcopy)) hid start hstart hfor
  rw [hloop] at hread
  exact hread.resolve_right id

theorem tickEnd (hloop : state.loop = .ticking now []) :
    SchedulerInv zone job { state with loop := .sleeping } where
  nodup := h.nodup
  listed_nodup := nodup_nil
  copies copy hcopy := h.copies copy (.inl (hcopy.resolve_right not_mem_nil))
  past := h.past
  history := h.history
  recorded copy hcopy hid start hstart hfor := by
    have hread := h.recorded copy (.inl (hcopy.resolve_right not_mem_nil)) hid start hstart hfor
    rw [hloop] at hread
    exact hread
  tick := by simp
  due := by simp

end

section Ticking

variable {first : Ipc.Job} (hloop : state.loop = .ticking now (first :: rest))

include hloop

theorem ticking_read (h : SchedulerInv zone job state) {copy : Ipc.Job}
    (hcopy : copy ∈ state.jobs ∨ copy ∈ first :: rest) (hid : copy.id = job.id) {start : RunStart}
    (hstart : start ∈ state.starts) (hfor : start.ScheduledFor job.id) :
    ReadsSince state.files copy start := by
  have hread := h.recorded copy (by rwa [hloop]) hid start hstart hfor
  rw [hloop] at hread
  exact hread.resolve_right id

theorem notDue (h : SchedulerInv zone job state) :
    SchedulerInv zone job { state with loop := .ticking now rest } := by
  have hnodup := h.listed_nodup
  rw [hloop] at hnodup
  refine h.listing (h.tick _ _ hloop) (nodup_cons.mp hnodup).2 ?_ ?_
  · intro copy hcopy
    exact h.copies copy (.inr (by rw [hloop]; exact mem_cons_of_mem _ hcopy))
  · intro copy hcopy hid start hstart hfor
    exact h.ticking_read hloop (hcopy.imp_right (mem_cons_of_mem _)) hid hstart hfor

/-- A job found due is due after every run of that kind the scheduler has started. -/
theorem foundDue (h : SchedulerInv zone job state) {kind : SqlRun}
    (hdue : dueKind zone state.files first now = some kind) :
    SchedulerInv zone job { state with loop := .waiting now rest ⟨first, kind, .spawned⟩ } where
  nodup := h.nodup
  listed_nodup := by
    have hnodup := h.listed_nodup
    rwa [hloop] at hnodup
  copies copy hcopy := h.copies copy (by rwa [hloop])
  past := h.past
  history := h.history
  recorded copy hcopy hid start hstart hfor :=
    .inl (h.ticking_read hloop (hcopy.imp_right (mem_cons_of_mem _)) hid hstart hfor)
  tick := by simp
  due := by
    rintro _ _ _ ⟨⟩
    refine ⟨h.tick _ _ hloop, fun _ hid => ?_⟩
    have hsetup := h.copies first (.inr (by rw [hloop]; exact mem_cons_self)) hid
    have hscheduled := scheduleDue_of_dueKind hdue
    rw [hsetup.cadence] at hscheduled
    refine ⟨_, hscheduled, ?_⟩
    rintro start hstart hfor rfl
    exact h.ticking_read hloop (.inr mem_cons_self) hid hstart hfor

end Ticking

theorem scheduled (h : SchedulerInv zone job state) (hloop : state.loop = .waiting now rest task)
    (hstep : TaskStep (some now) state task state' task') :
    SchedulerInv zone job { state' with loop := .waiting now rest task' } := by
  obtain ⟨hjobs, hclock, -, htask, hkind⟩ := hstep.frame
  have hlist : state.loop.listed = task'.job :: rest := by
    rw [hloop, htask]
    rfl
  have hcops : ∀ copy, copy ∈ state'.jobs ∨ copy ∈ task'.job :: rest → copy.id = job.id →
      SameSetup copy job := by
    intro copy hcopy
    rw [hjobs, ← hlist] at hcopy
    exact h.copies copy hcopy
  obtain ⟨hnow, hdue⟩ := h.due _ _ _ hloop
  have hold : ∀ copy, copy ∈ state'.jobs ∨ copy ∈ rest → copy.id = job.id →
      ∀ start ∈ state.starts, start.ScheduledFor job.id →
        ReadsSince state'.files copy start ∨ task'.Unrecorded start := by
    intro copy hcopy hid start hstart hfor
    rw [hjobs] at hcopy
    have hpre := h.recorded copy (by rwa [hloop]) hid start hstart hfor
    rw [hloop] at hpre
    refine hstep.recorded (hid.trans hfor.1.symm) (fun heq => ?_) (h.past start hstart) hpre
    rw [← htask] at heq ⊢
    rw [(hcops task'.job (.inr mem_cons_self) (heq.trans hid)).isSql,
      (hcops copy (by rw [hjobs]; exact hcopy.imp_right (mem_cons_of_mem _)) hid).isSql]
  refine { nodup := ?_, listed_nodup := ?_, copies := hcops, past := hstep.past h.past, history := ?_,
           recorded := ?_, tick := by simp, due := ?_ }
  · rw [hjobs]
    exact h.nodup
  · show ((task'.job :: rest).map Ipc.Job.id).Nodup
    rw [← hlist]
    exact h.listed_nodup
  · rcases hstep.starts with hsame | ⟨hspawn, -, rfl⟩
    · rw [hsame]
      exact h.history
    · show Justified zone job (⟨task.job.id, task.kind, state.clock, some now⟩ :: state.starts)
      by_cases hid : task.job.id = job.id
      · rw [hid]
        exact .scheduled h.history hnow (hdue hspawn hid)
      · exact .other h.history fun hfor => hid hfor.1
  · intro copy hcopy hid start hstart hfor
    rcases hstep.starts with hsame | ⟨-, hrun, rfl⟩
    · rw [hsame] at hstart
      exact hold copy hcopy hid start hstart hfor
    · rcases mem_cons.mp hstart with rfl | hmem
      · -- the run that has just claimed its job
        refine .inr ⟨congrArg Ipc.Job.id htask, hkind, ?_⟩
        rw [hrun]
        trivial
      · exact hold copy hcopy hid start hmem hfor
  · rintro _ _ _ ⟨⟩
    exact ⟨by rw [hclock]; exact hnow, fun hspawn => absurd hspawn hstep.not_spawned⟩

theorem requested (h : SchedulerInv zone job state) (hstep : TaskStep none state task state' task')
    (requests : List RunTask) : SchedulerInv zone job { state' with requests := requests } := by
  obtain ⟨hjobs, hclock, hloop, -, -⟩ := hstep.frame
  have hstarts : ∀ start ∈ state'.starts, start.ScheduledFor job.id → start ∈ state.starts := by
    intro start hstart hfor
    rcases hstep.starts with hsame | ⟨-, -, rfl⟩
    · rwa [hsame] at hstart
    · rcases mem_cons.mp hstart with rfl | hmem
      · exact absurd hfor.2 (by simp)
      · exact hmem
  refine { nodup := by rw [hjobs]; exact h.nodup, listed_nodup := by rw [hloop]; exact h.listed_nodup,
           copies := ?_, past := hstep.past h.past, history := ?_, recorded := ?_, tick := ?_, due := ?_ }
  · intro copy hcopy
    rw [hjobs, hloop] at hcopy
    exact h.copies copy hcopy
  · rcases hstep.starts with hsame | ⟨-, -, rfl⟩
    · rw [hsame]
      exact h.history
    · exact .other h.history fun hfor => absurd hfor.2 (by simp)
  · intro copy hcopy hid start hstart hfor
    rw [hjobs, hloop] at hcopy
    rw [hloop]
    have hmem := hstarts start hstart hfor
    exact (h.recorded copy hcopy hid start hmem hfor).imp_left (hstep.readsSince (h.past start hmem))
  · intro now rest
    rw [hloop, hclock]
    exact h.tick now rest
  · intro now rest task
    rw [hloop, hclock]
    intro hwaiting
    refine ⟨(h.due now rest task hwaiting).1, fun hspawn hid => ?_⟩
    obtain ⟨read, hdue, hread⟩ := (h.due now rest task hwaiting).2 hspawn hid
    exact ⟨read, hdue, fun start hstart hfor => hread start (hstarts start hstart hfor) hfor⟩

theorem readsSince_withRun {files : String → SchedFile} {copy : Ipc.Job} {start : RunStart}
    {time : Int} (hpast : start.time ≤ time) (h : ReadsSince files copy start ∨ copy.isSql = false) :
    ReadsSince files { copy with lastRun := some time, lastStatus := some status } start := by
  cases hsql : copy.isSql with
  | true =>
    have hread := h.resolve_right (by simp [hsql])
    exact (readsSince_sql (by exact hsql)).mpr ((readsSince_sql hsql).mp hread)
  | false => exact (readsSince_files (by exact hsql)).mpr ⟨time, rfl, hpast⟩

theorem requestDone (h : SchedulerInv zone job state) (task : RunTask) (status : String) :
    SchedulerInv zone job (state.record task status) := by
  refine h.withJobs (by rw [JobStore.map_id_withRun]; exact h.nodup) fun copy hcopy hid => ?_
  rcases Keyed.mem_of_mem_modify hcopy with hmem | ⟨old, hmem, -, rfl⟩
  · exact ⟨h.copies copy (.inl hmem) hid, h.recorded copy (.inl hmem) hid⟩
  · refine ⟨h.copies old (.inl hmem) hid, fun start hstart hfor => ?_⟩
    exact (h.recorded old (.inl hmem) hid start hstart hfor).imp_left
      fun hread => readsSince_withRun (h.past start hstart) (.inl hread)

theorem scheduledDone (h : SchedulerInv zone job state) (hloop : state.loop = .waiting now rest task)
    (hphase : task.phase = .ended status) :
    SchedulerInv zone job { state.record task status with loop := .ticking now rest } := by
  have hnodup : ((task.job :: rest).map Ipc.Job.id).Nodup := by
    have := h.listed_nodup
    rwa [hloop] at this
  obtain ⟨hnew, hrest⟩ := nodup_cons.mp hnodup
  -- whatever is still unrecorded is a file job's run, and this job's
  have hpre : ∀ copy, copy ∈ state.jobs ∨ copy ∈ rest → copy.id = job.id →
      ∀ start ∈ state.starts, start.ScheduledFor job.id →
        ReadsSince state.files copy start ∨ task.job.id = job.id ∧ copy.isSql = false := by
    intro copy hcopy hid start hstart hfor
    have hread := h.recorded copy (by rwa [hloop]) hid start hstart hfor
    rw [hloop] at hread
    refine hread.imp_right fun ⟨htask, _, hunrecorded⟩ => ?_
    rw [hphase] at hunrecorded
    have htaskId : task.job.id = job.id := htask.trans hfor.1
    have htaskSetup := h.copies task.job (.inr (by rw [hloop]; exact mem_cons_self)) htaskId
    have hcopySetup := h.copies copy
      (by rw [hloop]; exact hcopy.imp_right (mem_cons_of_mem _)) hid
    refine ⟨htaskId, ?_⟩
    rw [hcopySetup.isSql, ← htaskSetup.isSql]
    exact hunrecorded
  refine (h.requestDone task status).listing (h.due _ _ _ hloop).1 hrest ?_ ?_
  · intro copy hcopy
    exact h.copies copy (.inr (by rw [hloop]; exact mem_cons_of_mem _ hcopy))
  · rintro copy (hcopy | hcopy) hid start hstart hfor
    · by_cases htask : task.job.id = job.id
      · -- the record has found this job, whose id is that of no other
        obtain ⟨old, hmem, rfl⟩ := Keyed.exists_of_mem_modify h.nodup hcopy (hid.trans htask.symm)
        refine readsSince_withRun (h.past start hstart) ?_
        exact (hpre old (.inl hmem) hid start hstart hfor).imp_right And.right
      · rcases Keyed.mem_of_mem_modify hcopy with hmem | ⟨old, hmem, hold, rfl⟩
        · exact (hpre copy (.inl hmem) hid start hstart hfor).resolve_right fun hno => htask hno.1
        · exact absurd (hold.symm.trans hid) htask
    · refine (hpre copy (.inr hcopy) hid start hstart hfor).resolve_right fun ⟨htask, _⟩ => hnew ?_
      rw [htask, ← hid]
      exact mem_map_of_mem hcopy

theorem step (hstep : EngineStep zone (untouched job.id) state state')
    (h : SchedulerInv zone job state) : SchedulerInv zone job state' := by
  cases hstep with
  | advance hle => exact h.advance hle
  | edit hcall => exact h.edit hcall
  | tick hloop => exact h.tickStart hloop
  | tickEnd hloop => exact h.tickEnd hloop
  | notDue hloop => exact h.notDue hloop
  | due hloop hdue => exact h.foundDue hloop hdue
  | scheduled hloop htask => exact h.scheduled hloop htask
  | scheduledDone hloop hphase => exact h.scheduledDone hloop hphase
  | request => exact { h with }
  | requested _ htask => exact h.requested htask _
  | @requestDone before after task status => exact { h.requestDone task status with }

end Steps

end SchedulerInv

/-- The occurrence of a timed schedule that the tick of a scheduled start found. -/
def RunStart.occurrence (zone : TimeZone) (schedule : Ipc.Schedule) (start : RunStart) : Option Int :=
  start.tick.bind fun tick => (latestOccurrence zone schedule tick).map Prod.fst

/-- Two starts keep a schedule: they are an interval apart, or are for different
occurrences of a timed schedule, the first being started before the second occurs. -/
def KeepApart (zone : TimeZone) (schedule : Ipc.Schedule) (first second : RunStart) : Prop :=
  match schedule with
  | .manual => False
  | .interval minutes => (max minutes 1 : Nat) * 60 ≤ second.time - first.time
  | .daily _ _ | .weekly _ _ _ | .monthly _ _ _ =>
    ∃ earlier later, first.occurrence zone schedule = some earlier ∧
      second.occurrence zone schedule = some later ∧
      earlier ≤ first.time ∧ first.time < later ∧ later ≤ second.time

theorem keepApart_of_due {zone : TimeZone} {schedule : Ipc.Schedule} {first second : RunStart}
    {firstTick secondTick last : Int} {read : Option Int} (hfirst : first.tick = some firstTick)
    (hfirstLe : firstTick ≤ first.time) (hfirstDue : scheduleDue zone schedule read firstTick = true)
    (hsnd : second.tick = some secondTick) (hsecondLe : secondTick ≤ second.time)
    (hlast : first.time ≤ last)
    (hsecondDue : scheduleDue zone schedule (some last) secondTick = true) :
    KeepApart zone schedule first second := by
  have htimed : ∀ {occurrence : Int} {today : Bool} {start : RunStart} {tick : Int},
      start.tick = some tick → latestOccurrence zone schedule tick = some (occurrence, today) →
      start.occurrence zone schedule = some occurrence := by
    intro occurrence today start tick htick hlate
    simp only [RunStart.occurrence, htick, Option.bind_some, hlate, Option.map_some]
  unfold scheduleDue at hfirstDue hsecondDue
  unfold KeepApart
  cases schedule with
  | manual => cases hsecondDue
  | interval =>
    simp only [decide_eq_true_eq] at hsecondDue ⊢
    omega
  | daily | weekly | monthly =>
    simp only at hfirstDue hsecondDue ⊢
    split at hfirstDue
    · cases hfirstDue
    · rename_i earlier _ hearlier
      split at hsecondDue
      · cases hsecondDue
      · rename_i later _ hlater
        have hle := latestOccurrence_le hearlier
        have hle' := latestOccurrence_le hlater
        rw [decide_eq_true_eq] at hsecondDue
        exact ⟨earlier, later, htimed hfirst hearlier, htimed hsnd hlater, by omega, by omega,
          by omega⟩

/-- Whatever the clock, the durations and outcomes of runs, the requests and the edits
of other jobs: two runs of one kind that the scheduler starts for a job that is not
edited keep its schedule. -/
theorem scheduledStarts_keepApart {zone : TimeZone} {clock : Int} {jobs : List Ipc.Job}
    {files : String → SchedFile} (hids : (jobs.map Ipc.Job.id).Nodup) {job : Ipc.Job}
    (hjob : job ∈ jobs) {state : EngineState}
    (hreach : EngineReaches zone (untouched job.id) (.start clock jobs files) state)
    {newer between older : List RunStart} {first second : RunStart}
    (hstarts : state.starts = newer ++ second :: (between ++ first :: older))
    (hfirst : first.ScheduledFor job.id) (hsecond : second.ScheduledFor job.id)
    (hkind : first.kind = second.kind) :
    KeepApart zone (cadence job second.kind) first second := by
  have hinv : SchedulerInv zone job state :=
    Transition.invariant_of_reachable (SchedulerInv.initial hids hjob)
      (fun _ _ hbefore hstep => hbefore.step hstep) hreach
  have hhistory := hinv.history
  rw [hstarts] at hhistory
  obtain ⟨secondTick, hsecondTick, hsecondLe, read, hsecondDue, hseen⟩ :=
    hhistory.of_append.dueAfter hsecond
  obtain ⟨last, rfl, hlast⟩ := hseen first (by simp) hfirst hkind
  have hearlier : Justified zone job (first :: older) :=
    @Justified.of_append zone job (newer ++ second :: between) _ (by simpa using hhistory)
  obtain ⟨firstTick, hfirstTick, hfirstLe, firstRead, hfirstDue, -⟩ := hearlier.dueAfter hfirst
  rw [hkind] at hfirstDue
  exact keepApart_of_due hfirstTick hfirstLe hfirstDue hsecondTick hsecondLe hlast hsecondDue

def sampleMinuteJob : Ipc.Job := { sampleFileJob with schedule := .interval 1 }

theorem sampleMinuteJob_runs : ∃ state,
    EngineReaches (.fixed 0) (untouched "a") (.start 0 [sampleMinuteJob] fun _ => none) state ∧
      state.starts = [⟨"a", .full, 65, some 65⟩, ⟨"a", .full, 0, some 0⟩] := by
  have hclaimed : EngineReaches (.fixed 0) (untouched "a")
      (.start 0 [sampleMinuteJob] fun _ => none) _ :=
    .tail (.tail (.tail .refl (.tick rfl)) (.due rfl rfl)) (.scheduled rfl (.claim rfl (by decide)))
  have hended := ((hclaimed.tail (@EngineStep.advance _ _ _ 5 (by decide))).tail
    (.scheduled rfl (.finish rfl (.failed "disk full")))).tail (.scheduled rfl (.release rfl))
  have hrecorded := (hended.tail (.scheduledDone rfl rfl trivial)).tail (.tickEnd rfl)
  have hagain := (((hrecorded.tail (@EngineStep.advance _ _ _ 65 (by decide))).tail
    (.tick rfl)).tail (.due rfl rfl)).tail (.scheduled rfl (.claim rfl (by decide)))
  exact ⟨_, hagain, rfl⟩

theorem sampleMinuteJob_keepApart :
    KeepApart (.fixed 0) (.interval 1) ⟨"a", .full, 0, some 0⟩ ⟨"a", .full, 65, some 65⟩ := by
  obtain ⟨state, hreach, hstarts⟩ := sampleMinuteJob_runs
  exact @scheduledStarts_keepApart _ _ _ _ (by decide) sampleMinuteJob (by simp) state hreach [] [] []
    _ _ hstarts ⟨rfl, rfl⟩ ⟨rfl, rfl⟩ rfl

end PbsGui.Engine
