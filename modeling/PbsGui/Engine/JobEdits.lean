import PbsGui.Engine.Handler

/-!
# Edits in the GUI next to runs that finish

The GUI keeps the jobs it was last sent.  Its editor starts from one of them and builds
a whole job, with the last run and status of that copy, and `SaveJob` puts it in place
of the stored job.  Meanwhile runs finish and are recorded in the stored job.
-/

namespace PbsGui.Engine

open Lib Relation List

/-- The values of the editor's form. -/
structure JobForm where
  name : String
  source : Ipc.JobSource
  destination : Ipc.JobDestination
  schedule : Ipc.Schedule
  encrypt : Bool
  compress : Bool

/-- The id of the job in the editor (`job?.id || crypto.randomUUID()`). -/
def wizJobId (editing : Option Ipc.Job) (randomId : String) : String :=
  match editing with
  | some job => if job.id = "" then randomId else job.id
  | none => randomId

/-- The job that is built from the form and the copy it was opened with. -/
def gatherJob (editing : Option Ipc.Job) (randomId : String) (form : JobForm) : Ipc.Job where
  id := wizJobId editing randomId
  name := form.name
  source := form.source
  destination := form.destination
  schedule :=
    -- a SQL job has its schedule in the protection plan
    match form.source with
    | .sql _ _ _ => .manual
    | .files _ _ _ => form.schedule
  lastRun := editing.bind Ipc.Job.lastRun
  lastStatus := editing.bind Ipc.Job.lastStatus
  encrypted :=
    match form.destination with
    | .pbs _ _ => form.encrypt
    | .folder _ => false
  compress := form.compress

/-- A run that was recorded. -/
structure FinishedRun where
  jobId : String
  time : Int
  status : String
  deriving DecidableEq

/-- The store and the GUIs. -/
structure EditState where
  clock : Int
  /-- The jobs in the store. -/
  jobs : List Ipc.Job
  /-- All copies of jobs that were ever listed. -/
  listed : List Ipc.Job
  /-- The runs recorded so far. -/
  runs : List FinishedRun

/-- A step; `accepts` is what is assumed of a save. -/
inductive EditStep (accepts : EditState → Ipc.Job → Prop) (state : EditState) : EditState → Prop
  | advance {later : Int} (h : state.clock ≤ later) :
      EditStep accepts state { state with clock := later }
  /-- `ListJobs` -/
  | list : EditStep accepts state { state with listed := state.jobs ++ state.listed }
  /-- `SaveJob` of a job built from a copy listed at some time, or of a new job. -/
  | save {editing : Option Ipc.Job} {randomId : String} {form : JobForm}
      (hediting : ∀ copy, editing = some copy → copy ∈ state.listed)
      (hrandom : randomId ≠ "" ∧ randomId ∉ state.jobs.map Ipc.Job.id)
      (hjob : validateJob (gatherJob editing randomId form) = .ok ())
      (hgroups : validatePbsGroups (gatherJob editing randomId form) state.jobs = .ok ())
      (haccepts : accepts state (gatherJob editing randomId form)) :
      EditStep accepts state
        { state with jobs := Keyed.upsert Ipc.Job.id (gatherJob editing randomId form) state.jobs }
  /-- A run finishes. -/
  | recordRun (id status : String) :
      EditStep accepts state
        { state with
          jobs := JobStore.withRun id state.clock status state.jobs
          runs := ⟨id, state.clock, status⟩ :: state.runs }

def EditReaches (accepts : EditState → Ipc.Job → Prop) : EditState → EditState → Prop :=
  ReflTransGen (EditStep accepts)

theorem handle_saveJob_saved {formats : StoreFormats} {env : RequestEnv} {stores : EngineStores}
    {job : Ipc.Job} {id : String} (h : (handle formats env (.saveJob job) stores).2 = .saved id) :
    validateJob job = .ok () ∧ validatePbsGroups job stores.jobs.store.items = .ok () ∧
      (handle formats env (.saveJob job) stores).1.jobs.store.items =
        Keyed.upsert Ipc.Job.id job stores.jobs.store.items := by
  simp only [handle, saveJob] at h ⊢
  cases hjob : validateJob job with
  | error =>
    rw [hjob] at h
    cases h
  | ok =>
    rw [hjob] at h
    cases hgroups : validatePbsGroups job stores.jobs.store.list with
    | error =>
      rw [hgroups] at h
      cases h
    | ok =>
      rw [hgroups] at h
      refine ⟨rfl, hgroups, ?_⟩
      cases hload : stores.jobs.store.loadError with
      | some =>
        simp only [JobStore.saveJob, ListStore.mutate_readOnly hload] at h
        cases h
      | none => simp only [JobStore.saveJob, ListStore.mutate_writable hload]

/-! ### Status and last run -/

/-- A job has never run, or its last run and status are those of one recorded run. -/
def BelongsToRun (runs : List FinishedRun) (job : Ipc.Job) : Prop :=
  job.lastRun = none ∧ job.lastStatus = none ∨
    ∃ run ∈ runs, run.jobId = job.id ∧ job.lastRun = some run.time ∧
      job.lastStatus = some run.status

def NotBefore (before after : Option Int) : Prop :=
  ∀ last, before = some last → ∃ later, after = some later ∧ last ≤ later

/-- The saved job carries the last run that the stored one has. -/
def carriesLastRun (state : EditState) (job : Ipc.Job) : Prop :=
  ∀ stored, Keyed.lookup Ipc.Job.id job.id state.jobs = some stored → job.lastRun = stored.lastRun

section Steps

variable {accepts : EditState → Ipc.Job → Prop} {state state' : EditState}

/-- Copies belong to runs, and none of the runs is in the future. -/
structure EditInv (state : EditState) : Prop where
  belongs : ∀ job, job ∈ state.jobs ∨ job ∈ state.listed → BelongsToRun state.runs job
  past : ∀ run ∈ state.runs, run.time ≤ state.clock
  ids : ∀ job, job ∈ state.jobs ∨ job ∈ state.listed → job.id ≠ ""

theorem BelongsToRun.mono {runs more : List FinishedRun} {job : Ipc.Job}
    (h : BelongsToRun runs job) (hsub : runs ⊆ more) : BelongsToRun more job :=
  h.imp_right fun ⟨run, hmem, hrun⟩ => ⟨run, hsub hmem, hrun⟩

theorem EditInv.lastRun_le (h : EditInv state) {job : Ipc.Job} (hjob : job ∈ state.jobs) {last : Int}
    (hlast : job.lastRun = some last) : last ≤ state.clock := by
  rcases h.belongs job (.inl hjob) with ⟨hnone, -⟩ | ⟨run, hrun, -, htime, -⟩
  · rw [hnone] at hlast
    cases hlast
  · rw [htime] at hlast
    cases hlast
    exact h.past run hrun

/-- A job built in the editor belongs to the run that the copy in it belongs to. -/
theorem EditInv.gatherJob (h : EditInv state) {editing : Option Ipc.Job} {randomId : String}
    (hediting : ∀ copy, editing = some copy → copy ∈ state.listed) (hrand : randomId ≠ "")
    (form : JobForm) :
    BelongsToRun state.runs (gatherJob editing randomId form) ∧
      (gatherJob editing randomId form).id ≠ "" := by
  cases editing with
  | none => exact ⟨.inl ⟨rfl, rfl⟩, hrand⟩
  | some copy =>
    have hcopy := hediting copy rfl
    have hid := h.ids copy (.inr hcopy)
    have hsame : wizJobId (some copy) randomId = copy.id := if_neg hid
    constructor
    · rcases h.belongs copy (.inr hcopy) with ⟨hrun, hstat⟩ | ⟨run, hmem, hrunId, hrun, hstat⟩
      · exact .inl ⟨hrun, hstat⟩
      · exact .inr ⟨run, hmem, hrunId.trans hsame.symm, hrun, hstat⟩
    · show wizJobId (some copy) randomId ≠ ""
      rw [hsame]
      exact hid

theorem EditInv.step (hstep : EditStep accepts state state') (h : EditInv state) : EditInv state' := by
  cases hstep with
  | advance hle => exact ⟨h.belongs, fun run hrun => (h.past run hrun).trans hle, h.ids⟩
  | list =>
    have hcops : ∀ job, job ∈ state.jobs ∨ job ∈ state.jobs ++ state.listed →
        job ∈ state.jobs ∨ job ∈ state.listed := by
      intro job hjob
      simpa using hjob
    exact ⟨fun job hjob => h.belongs job (hcops job hjob), h.past,
      fun job hjob => h.ids job (hcops job hjob)⟩
  | @save editing randomId form hediting hrand =>
    obtain ⟨hbelongs, hid⟩ := h.gatherJob hediting hrand.1 form
    refine ⟨?_, h.past, ?_⟩
    · rintro job (hjob | hjob)
      · rcases Keyed.mem_of_mem_upsert hjob with rfl | hold
        · exact hbelongs
        · exact h.belongs job (.inl hold)
      · exact h.belongs job (.inr hjob)
    · rintro job (hjob | hjob)
      · rcases Keyed.mem_of_mem_upsert hjob with rfl | hold
        · exact hid
        · exact h.ids job (.inl hold)
      · exact h.ids job (.inr hjob)
  | recordRun id status =>
    have hmore := subset_cons_of_subset (⟨id, state.clock, status⟩ : FinishedRun)
      (List.Subset.refl state.runs)
    refine ⟨?_, ?_, ?_⟩
    · rintro job (hjob | hjob)
      · rcases Keyed.mem_of_mem_modify hjob with hold | ⟨old, -, hid, rfl⟩
        · exact (h.belongs job (.inl hold)).mono hmore
        · exact .inr ⟨_, mem_cons_self, hid.symm, rfl, rfl⟩
      · exact (h.belongs job (.inr hjob)).mono hmore
    · intro run hrun
      rcases mem_cons.mp hrun with rfl | hold
      · exact Int.le_refl _
      · exact h.past run hold
    · rintro job (hjob | hjob)
      · rcases Keyed.mem_of_mem_modify hjob with hold | ⟨old, hold, -, rfl⟩
        · exact h.ids job (.inl hold)
        · exact h.ids old (.inl hold)
      · exact h.ids job (.inr hjob)

/-- The last run of each stored job is kept from one list to another. -/
def LastRunsKept (before after : List Ipc.Job) : Prop :=
  ∀ id job, Keyed.lookup Ipc.Job.id id before = some job →
    ∃ job', Keyed.lookup Ipc.Job.id id after = some job' ∧ NotBefore job.lastRun job'.lastRun

theorem NotBefore.refl (time : Option Int) : NotBefore time time :=
  fun last hlast => ⟨last, hlast, Int.le_refl _⟩

theorem LastRunsKept.refl (jobs : List Ipc.Job) : LastRunsKept jobs jobs :=
  fun _ job hjob => ⟨job, hjob, .refl _⟩

theorem LastRunsKept.trans {first second third : List Ipc.Job} (h : LastRunsKept first second)
    (hnext : LastRunsKept second third) : LastRunsKept first third := by
  intro id job hjob
  obtain ⟨middle, hmid, hkept⟩ := h id job hjob
  obtain ⟨last, hlast, hkept'⟩ := hnext id middle hmid
  refine ⟨last, hlast, fun time htime => ?_⟩
  obtain ⟨later, hlater, hle⟩ := hkept time htime
  obtain ⟨latest, hlate, hle'⟩ := hkept' later hlater
  exact ⟨latest, hlate, hle.trans hle'⟩

theorem EditStep.lastRunsKept (hstep : EditStep carriesLastRun state state') (h : EditInv state) :
    LastRunsKept state.jobs state'.jobs := by
  cases hstep with
  | advance | list => exact .refl _
  | @save editing randomId form _ _ _ _ hcarries =>
    intro id job hjob
    rw [Keyed.lookup_upsert]
    split
    · rename_i hid
      subst hid
      refine ⟨_, rfl, ?_⟩
      rw [hcarries job hjob]
      exact .refl _
    · exact ⟨job, hjob, .refl _⟩
  | recordRun =>
    intro id job hjob
    rw [JobStore.lookup_withRun, hjob]
    split
    · refine ⟨_, rfl, fun last hlast => ⟨state.clock, rfl, ?_⟩⟩
      exact h.lastRun_le (Keyed.mem_of_lookup hjob).1 hlast
    · exact ⟨job, rfl, .refl _⟩

end Steps

/-- Along every interleaving of listings, saves and runs that finish, the status of a
stored job is that of the run its last run names.  Its last run is never lost and
never goes back if each save carries the last run that the stored job has then. -/
theorem lastRun_kept_of_carried {start middle later : EditState}
    (hbelongs : ∀ job, job ∈ start.jobs ∨ job ∈ start.listed → BelongsToRun start.runs job)
    (hpast : ∀ run ∈ start.runs, run.time ≤ start.clock)
    (hids : ∀ job, job ∈ start.jobs ∨ job ∈ start.listed → job.id ≠ "") :
    (∀ accepts, EditReaches accepts start later →
      ∀ job ∈ later.jobs, BelongsToRun later.runs job) ∧
    (EditReaches carriesLastRun start middle → EditReaches carriesLastRun middle later →
      LastRunsKept middle.jobs later.jobs) := by
  have hinv : ∀ {accepts : EditState → Ipc.Job → Prop} {state : EditState},
      EditReaches accepts start state → EditInv state := fun hreach =>
    Transition.invariant_of_reachable ⟨hbelongs, hpast, hids⟩ (fun _ _ h hstep => h.step hstep) hreach
  constructor
  · intro accepts hreach job hjob
    exact (hinv hreach).belongs job (.inl hjob)
  · intro hmiddle hlater
    induction hlater with
    | refl => exact .refl _
    | tail hrun hstep ih => exact ih.trans (hstep.lastRunsKept (hinv (hmiddle.trans hrun)))

def sampleForm : JobForm :=
  { name := "job a", source := sampleFileJob.source, destination := sampleFileJob.destination,
    schedule := .manual, encrypt := false, compress := true }

/-- A store with the sample job, which has not run. -/
def sampleEdit : EditState :=
  { clock := 0, jobs := [sampleFileJob], listed := [], runs := [] }

def sampleRan : EditState :=
  { clock := 100, jobs := JobStore.withRun "a" 100 "ok" [sampleFileJob], listed := [sampleFileJob],
    runs := [⟨"a", 100, "ok"⟩] }

theorem sampleRan_reached (accepts : EditState → Ipc.Job → Prop) :
    EditReaches accepts sampleEdit sampleRan :=
  .tail (.tail (.tail .refl .list) (@EditStep.advance _ _ 100 (by decide))) (.recordRun "a" "ok")

/-- The job is listed, a run of it is recorded, and the copy listed before is saved: the
store has forgotten the run. -/
theorem staleSave_forgets_run : ∃ saved,
    EditReaches (fun _ _ => True) sampleEdit sampleRan ∧
      EditReaches (fun _ _ => True) sampleRan saved ∧
      (Keyed.lookup Ipc.Job.id "a" sampleRan.jobs).bind Ipc.Job.lastRun = some 100 ∧
      Keyed.lookup Ipc.Job.id "a" saved.jobs = some sampleFileJob ∧ sampleFileJob.lastRun = none := by
  have hsaved := @EditStep.save (fun _ _ => True) sampleRan (some sampleFileJob) "b" sampleForm
    (by rintro copy ⟨⟩; exact mem_cons_self) (by decide) rfl rfl trivial
  exact ⟨_, sampleRan_reached _, .single hsaved, rfl, rfl, rfl⟩

/-- The sample job as it is listed after its run. -/
def sampleRanJob : Ipc.Job := { sampleFileJob with lastRun := some 100, lastStatus := some "ok" }

/-- A save from a listing made after the run keeps it. -/
theorem freshSave_keeps_run :
    LastRunsKept sampleRan.jobs
      (Keyed.upsert Ipc.Job.id (gatherJob (some sampleRanJob) "b" sampleForm) sampleRan.jobs) := by
  have hlisted : EditReaches carriesLastRun sampleRan
      { sampleRan with listed := sampleRan.jobs ++ sampleRan.listed } := .single .list
  have hsaved := hlisted.tail (@EditStep.save _ _ (some sampleRanJob) "b" sampleForm
    (by rintro copy ⟨⟩; exact mem_cons_self) (by decide) rfl rfl (by rintro stored ⟨⟩; rfl))
  refine (lastRun_kept_of_carried ?_ ?_ ?_).2 (sampleRan_reached _) hsaved
  · rintro job (hjob | hjob)
    · rw [mem_singleton.mp hjob]
      exact .inl ⟨rfl, rfl⟩
    · cases hjob
  · rintro run ⟨⟩
  · rintro job (hjob | hjob)
    · rw [mem_singleton.mp hjob]
      decide
    · cases hjob

end PbsGui.Engine
