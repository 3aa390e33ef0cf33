import PbsGui.Engine.ScheduledRuns

/-!
# Occurrences that are missed

A file job's last run is written when a run has ended, and for a request that was
refused as well.  An occurrence between the start of a run and that moment counts as run from
then on.  Where that does not happen, a job is due until a run has started for every occurrence
of its schedule.
-/

namespace PbsGui.Engine

open Lib Relation List

/-- A run of the job has started at an instant or after it. -/
def StartedSince (state : EngineState) (id : String) (instant : Int) : Prop :=
  ∃ start ∈ state.starts, start.jobId = id ∧ instant ≤ start.time

/-- The job is not edited, and whenever an outcome is recorded for it, each occurrence
after `since` that has passed has had a run that started at it or after it. -/
def consumesNothing (zone : TimeZone) (job : Ipc.Job) (since : Int) : EngineLimits where
  edit call := call.jobId ≠ job.id
  record state task := task.job.id = job.id → ∀ occurrence, Occurrence zone job.schedule occurrence →
    since < occurrence → occurrence ≤ state.clock → StartedSince state job.id occurrence

section Covered

variable {zone : TimeZone} {job copy : Ipc.Job} {since : Int} {state state' : EngineState}
  {limits : EngineLimits}

/-- Each occurrence up to the last run in a copy of the job has had its run. -/
def Covered (zone : TimeZone) (job : Ipc.Job) (since : Int) (state : EngineState) (copy : Ipc.Job) :
    Prop :=
  ∀ last, copy.lastRun = some last → ∀ occurrence, Occurrence zone job.schedule occurrence →
    since < occurrence → occurrence ≤ last → StartedSince state job.id occurrence

/-- Each copy of the job in the store or in the scheduler's list is covered. -/
def CopiesCovered (zone : TimeZone) (job : Ipc.Job) (since : Int) (state : EngineState) : Prop :=
  ∀ copy, copy ∈ state.jobs ∨ copy ∈ state.loop.listed → copy.id = job.id →
    Covered zone job since state copy

theorem StartedSince.mono {id : String} {instant : Int} (h : StartedSince state id instant)
    (hstarts : state.starts ⊆ state'.starts) : StartedSince state' id instant := by
  obtain ⟨start, hmem, hstart⟩ := h
  exact ⟨start, hstarts hmem, hstart⟩

theorem CopiesCovered.mono (h : CopiesCovered zone job since state)
    (hjobs : ∀ copy ∈ state'.jobs, copy.id = job.id → copy ∈ state.jobs)
    (hlist : ∀ copy ∈ state'.loop.listed, copy ∈ state.jobs ∨ copy ∈ state.loop.listed)
    (hstarts : state.starts ⊆ state'.starts) : CopiesCovered zone job since state' := by
  intro copy hcopy hid last hlast occurrence hoccurs hsince hle
  have hpre : copy ∈ state.jobs ∨ copy ∈ state.loop.listed := by
    rcases hcopy with hmem | hmem
    · exact .inl (hjobs copy hmem hid)
    · exact hlist copy hmem
  exact (h copy hpre hid last hlast occurrence hoccurs hsince hle).mono hstarts

theorem TaskStep.starts_subset {tick : Option Int} {task task' : RunTask}
    (h : TaskStep tick state task state' task') : state.starts ⊆ state'.starts := by
  rcases h.starts with hsame | ⟨-, -, rfl⟩
  · rw [hsame]
    exact List.Subset.refl _
  · exact subset_cons_of_subset _ (List.Subset.refl _)

theorem CopiesCovered.record (h : CopiesCovered zone job since state) {task : RunTask}
    (hrec : (consumesNothing zone job since).record state task) (status : String) :
    CopiesCovered zone job since (state.record task status) := by
  rintro copy (hcopy | hcopy) hid
  · rcases Keyed.mem_of_mem_modify hcopy with hmem | ⟨old, -, hold, rfl⟩
    · exact h copy (.inl hmem) hid
    · rintro last ⟨⟩
      exact hrec (hold.symm.trans hid)
  · exact h copy (.inr hcopy) hid

theorem CopiesCovered.step (hstep : EngineStep zone (consumesNothing zone job since) state state')
    (h : CopiesCovered zone job since state) : CopiesCovered zone job since state' := by
  cases hstep with
  | advance | request => exact h
  | edit hcall =>
    refine h.mono (fun copy hcopy hid => ?_) (fun copy => .inr) (List.Subset.refl _)
    exact JobCall.mem_of_mem_apply hcopy (by rw [hid]; exact hcall)
  | tick => exact h.mono (fun _ hcopy _ => hcopy) (fun _ => .inl) (List.Subset.refl _)
  | tickEnd =>
    refine h.mono (fun _ hcopy _ => hcopy) (fun copy hcopy => ?_) (List.Subset.refl _)
    cases hcopy
  | notDue hloop =>
    refine h.mono (fun _ hcopy _ => hcopy) (fun copy hcopy => .inr ?_) (List.Subset.refl _)
    rw [hloop]
    exact mem_cons_of_mem _ hcopy
  | due hloop =>
    refine h.mono (fun _ hcopy _ => hcopy) (fun copy hcopy => .inr ?_) (List.Subset.refl _)
    rwa [hloop]
  | scheduled hloop htask =>
    obtain ⟨hjobs, -, -, hjob, -⟩ := htask.frame
    refine h.mono (fun copy hcopy _ => ?_) (fun copy hcopy => .inr ?_) htask.starts_subset
    · rwa [← hjobs]
    · rw [hloop]
      simpa only [SchedulerLoop.listed, hjob] using hcopy
  | requested _ htask =>
    obtain ⟨hjobs, -, hloop, -, -⟩ := htask.frame
    refine h.mono (fun copy hcopy _ => ?_) (fun copy hcopy => .inr ?_) htask.starts_subset
    · rwa [← hjobs]
    · rwa [← hloop]
  | @scheduledDone _ _ task status hloop _ hrec =>
    refine (h.record hrec status).mono (fun _ hcopy _ => hcopy) (fun copy hcopy => .inr ?_)
      (List.Subset.refl _)
    show copy ∈ state.loop.listed
    rw [hloop]
    exact mem_cons_of_mem _ hcopy
  | @requestDone _ _ task status _ _ hrec =>
    exact (h.record hrec status).mono (fun _ hcopy _ => hcopy) (fun _ => .inr)
      (List.Subset.refl _)

theorem EngineStep.mono (weaker : EngineLimits) (hedit : ∀ call, limits.edit call → weaker.edit call)
    (hrec : ∀ state task, limits.record state task → weaker.record state task)
    (h : EngineStep zone limits state state') : EngineStep zone weaker state state' := by
  cases h with
  | advance hle => exact .advance hle
  | edit hcall => exact .edit (hedit _ hcall)
  | tick hloop => exact .tick hloop
  | tickEnd hloop => exact .tickEnd hloop
  | notDue hloop hdue => exact .notDue hloop hdue
  | due hloop hdue => exact .due hloop hdue
  | scheduled hloop htask => exact .scheduled hloop htask
  | scheduledDone hloop hphase hlimit => exact .scheduledDone hloop hphase (hrec _ _ hlimit)
  | request hget => exact .request hget
  | requested hsplit htask => exact .requested hsplit htask
  | requestDone hsplit hphase hlimit => exact .requestDone hsplit hphase (hrec _ _ hlimit)

theorem EngineStep.untouched (h : EngineStep zone (consumesNothing zone job since) state state') :
    EngineStep zone (untouched job.id) state state' := by
  apply h.mono
  · exact fun _ hcall => hcall
  · exact fun _ _ _ => trivial

end Covered

/-- A file job whose last run is after no occurrence that has not had its run is due
once an occurrence without a run has passed. -/
theorem Covered.started_or_due {zone : TimeZone} {job copy : Ipc.Job} {since now occurrence : Int}
    {state : EngineState} (h : Covered zone job since state copy) (hsetup : SameSetup copy job)
    (hfile : job.isSql = false)
    (hreg : ∀ hour minute, timeOfDay job.schedule = some (hour, minute) →
      RegularTime zone hour minute)
    (hnow : Representable zone now)
    (hfirst : copy.lastRun = none →
      ∃ latest, latestOccurrence zone job.schedule now = some (latest, true))
    (hoccurs : Occurrence zone job.schedule occurrence) (hsince : since < occurrence)
    (hpassed : occurrence ≤ now) :
    StartedSince state job.id occurrence ∨ dueKind zone state.files copy now = some .full := by
  obtain ⟨latest, today, hlate, hle⟩ := latestOccurrence_ge hreg hnow hoccurs hpassed
  have hkind : dueKind zone state.files copy now =
      if scheduleDue zone job.schedule copy.lastRun now then some .full else none := by
    have hcopyFile : copy.isSql = false := hsetup.isSql.trans hfile
    cases hsrc : copy.source with
    | sql => simp [Ipc.Job.isSql, hsrc] at hcopyFile
    | files => simp only [dueKind, hsrc, hsetup.2]
  rw [hkind, scheduleDue_of_latest hlate]
  cases hlast : copy.lastRun with
  | none =>
    obtain ⟨_, hfound⟩ := hfirst hlast
    rw [hlate] at hfound
    cases hfound
    exact .inr rfl
  | some last =>
    by_cases hpre : last < latest
    · exact .inr (by simp [hpre])
    · exact .inl (h last hlast occurrence hoccurs hsince (by omega))

/-- A file job that runs every day at one minute past midnight. -/
def sampleDailyJob : Ipc.Job := { sampleFileJob with schedule := .daily 0 1 }

theorem sampleDailyJob_occurs : Occurrence (.fixed 0) sampleDailyJob.schedule 60 :=
  ⟨0, 1, .epoch, rfl, rfl, rfl⟩

/-- The engine comes up at midnight and ticks after the occurrence. -/
def sampleTick : EngineState :=
  { EngineState.start 80 [sampleDailyJob] (fun _ => none) with loop := .ticking 80 [sampleDailyJob] }

theorem sampleTick_reached :
    EngineReaches (.fixed 0) (consumesNothing (.fixed 0) sampleDailyJob 0)
      (.start 0 [sampleDailyJob] fun _ => none) sampleTick :=
  .tail (.tail .refl (@EngineStep.advance _ _ _ 80 (by decide))) (.tick rfl)

end PbsGui.Engine
