import PbsGui.Engine.JobEdits
import PbsGui.Engine.ScheduledRuns

/-!
# Copies of jobs that outlive an edit

A tick of the scheduler goes through a copy of the list of jobs, waiting for the end of each run
it starts, and the run of a `RunJob` request claims a copy of its job.  A `SaveJob` or
`DeleteJob` that is answered in between changes the store only, and a copy that has not started
yet still will.
-/

namespace PbsGui.Engine

open Lib Relation List

/-! ### Edits and runs that start -/

/-- A request of the GUI that changes the jobs. -/
inductive JobEdit
  | save (job : Ipc.Job)
  | delete (id : String)

namespace JobEdit

def call : JobEdit → JobCall
  | save job => .saveJob job
  | delete id => .delete id

def jobId (edit : JobEdit) : String := edit.call.jobId

end JobEdit

/-- Who starts a run. -/
inductive Starter
  | scheduler
  | request

def SchedulerLoop.unstarted : SchedulerLoop → List Ipc.Job
  | sleeping => []
  | ticking _ rest => rest
  | waiting _ rest task =>
    match task.phase with
    | .spawned => task.job :: rest
    | .running | .recorded _ | .ended _ => rest

/-- The copies that are held and have not started. -/
def EngineState.Unstarted (state : EngineState) : Starter → Ipc.Job → Prop
  | .scheduler, copy => copy ∈ state.loop.unstarted
  | .request, copy => ∃ task ∈ state.requests, task.phase = .spawned ∧ task.job = copy

/-- The next step may start a run with this copy of the job. -/
def EngineState.MayStart (state : EngineState) : Starter → Ipc.Job → Prop
  | .scheduler, copy => copy.id ∉ state.running ∧
      ∃ now rest kind, state.loop = .waiting now rest ⟨copy, kind, .spawned⟩
  | .request, copy => copy.id ∉ state.running ∧
      ∃ kind, ⟨copy, kind, .spawned⟩ ∈ state.requests

/-- The engine with the edits that were answered with success, newest first. -/
structure EditedEngine where
  engine : EngineState
  answered : List JobEdit

def EditedEngine.lastEdit (state : EditedEngine) (id : String) : Option JobEdit :=
  state.answered.find? fun edit => edit.jobId = id

def noEdits : EngineLimits := { edit := fun _ => False }

/-- A step of the engine, or an edit that is answered; `allow` is what is assumed of
the moment of an edit. -/
inductive EditedStep (zone : TimeZone) (allow : EngineState → JobEdit → Prop) (state : EditedEngine) :
    EditedEngine → Prop
  | answer {edit : JobEdit} (h : allow state.engine edit) :
      EditedStep zone allow state
        { engine := { state.engine with jobs := edit.call.apply state.engine.jobs }
          answered := edit :: state.answered }
  | engine {engine' : EngineState} (h : EngineStep zone noEdits state.engine engine') :
      EditedStep zone allow state { state with engine := engine' }

def EditedReaches (zone : TimeZone) (allow : EngineState → JobEdit → Prop) :
    EditedEngine → EditedEngine → Prop :=
  ReflTransGen (EditedStep zone allow)

def EditedEngine.start (clock : Int) (jobs : List Ipc.Job) (files : String → SchedFile) :
    EditedEngine :=
  { engine := .start clock jobs files, answered := [] }

section Link

variable {zone : TimeZone} {limits : EngineLimits} {state state' : EngineState}

theorem TaskStep.starts_or_spawned {tick : Option Int} {task task' : RunTask}
    (h : TaskStep tick state task state' task') : state'.starts = state.starts ∨
      (task.job.id ∉ state.running ∧ task = ⟨task.job, task.kind, .spawned⟩ ∧
        state'.starts = ⟨task.job.id, task.kind, state.clock, tick⟩ :: state.starts) := by
  cases h with
  | claim hphase hfree =>
    refine .inr ⟨hfree, ?_, rfl⟩
    rw [← hphase]
  | refuse | chain | finish | release => exact .inl rfl

theorem EngineStep.starts_of_mayStart (h : EngineStep zone limits state state') :
    state'.starts = state.starts ∨ ∃ starter copy start, state.MayStart starter copy ∧
      start.jobId = copy.id ∧ state'.starts = start :: state.starts := by
  cases h with
  | advance | edit | tick | tickEnd | notDue | due | scheduledDone | request | requestDone =>
    exact .inl rfl
  | @scheduled now rest task _ _ hloop htask =>
    rcases htask.starts_or_spawned with hsame | ⟨hfree, hspawn, hstarts⟩
    · exact .inl hsame
    · rw [hspawn] at hloop
      exact .inr ⟨.scheduler, task.job, _, ⟨hfree, now, rest, task.kind, hloop⟩, rfl, hstarts⟩
  | @requested _ _ task _ _ hsplit htask =>
    rcases htask.starts_or_spawned with hsame | ⟨hfree, hspawn, hstarts⟩
    · exact .inl hsame
    · refine .inr ⟨.request, task.job, _, ⟨hfree, task.kind, ?_⟩, rfl, hstarts⟩
      rw [hsplit, ← hspawn]
      exact mem_append_right _ mem_cons_self

theorem EngineState.MayStart.starts {starter : Starter} {copy : Ipc.Job}
    (h : state.MayStart starter copy) : ∃ state' start, EngineStep zone limits state state' ∧
      start.jobId = copy.id ∧ state'.starts = start :: state.starts := by
  cases starter with
  | scheduler =>
    obtain ⟨hfree, now, rest, kind, hloop⟩ := h
    exact ⟨_, _, .scheduled hloop (.claim rfl hfree), rfl, rfl⟩
  | request =>
    obtain ⟨hfree, kind, hmem⟩ := h
    obtain ⟨before, after, hsplit⟩ := append_of_mem hmem
    exact ⟨_, ⟨copy.id, kind, state.clock, none⟩, .requested hsplit (.claim rfl hfree), rfl, rfl⟩

theorem handle_deleteJob_deleted {formats : StoreFormats} {env : RequestEnv} {stores : EngineStores}
    {id : String} (h : (handle formats env (.deleteJob id) stores).2 = .deleted) :
    (handle formats env (.deleteJob id) stores).1.jobs.store.items =
      (JobEdit.delete id).call.apply stores.jobs.store.items := by
  simp only [handle] at h ⊢
  cases hload : stores.jobs.store.loadError with
  | some =>
    simp only [JobStore.delete, ListStore.mutate_readOnly hload] at h
    cases h
  | none =>
    simp only [JobStore.delete, ListStore.mutate_writable hload]
    rfl

end Link

/-- Two versions of a job are the same up to what was recorded of its runs. -/
def SameSettings (copy job : Ipc.Job) : Prop :=
  { copy with lastRun := none, lastStatus := none } = { job with lastRun := none, lastStatus := none }

namespace JobEdit

def Permits : JobEdit → Ipc.Job → Prop
  | save saved, copy => copy.id = saved.id → SameSettings copy saved
  | delete id, copy => copy.id ≠ id

def Binds : JobEdit → Starter → Prop
  | save _, .scheduler | delete _, _ => True
  | save _, .request => False

end JobEdit

/-- At the moment of an edit no copy is held that it puts out of date. -/
def NoneOutdated (state : EngineState) (edit : JobEdit) : Prop :=
  ∀ starter, edit.Binds starter → ∀ copy, state.Unstarted starter copy → edit.Permits copy

section Permits

variable {zone : TimeZone} {limits : EngineLimits} {state state' : EngineState} {edit : JobEdit}
  {starter : Starter} {copy old job : Ipc.Job} {jobs : List Ipc.Job}

theorem SameSettings.id_eq (h : SameSettings copy job) : copy.id = job.id := by
  have hid := congrArg Ipc.Job.id h
  exact hid

theorem JobEdit.Permits.of_sameSettings (h : edit.Permits old) (hsame : SameSettings copy old) :
    edit.Permits copy := by
  cases edit with
  | save => exact fun hid => hsame.trans (h (hsame.id_eq.symm.trans hid))
  | delete => exact fun hid => h (hsame.id_eq.symm.trans hid)

theorem JobEdit.permits_of_ne (h : copy.id ≠ edit.jobId) : edit.Permits copy := by
  cases edit with
  | save => exact fun hid => absurd hid h
  | delete => exact h

theorem JobEdit.permits_of_mem_apply (hids : (jobs.map Ipc.Job.id).Nodup)
    (h : job ∈ edit.call.apply jobs) : edit.Permits job := by
  cases edit with
  | save =>
    intro hid
    have hunique := inj_on_of_nodup_map (Keyed.nodup_upsert hids) h Keyed.mem_upsert_self hid
    rw [hunique]
    rfl
  | delete id =>
    have hne : job.id ≠ id := by simpa using (mem_filter.mp h).2
    exact hne

theorem EngineStep.stored (h : EngineStep zone noEdits state state') (hjob : job ∈ state'.jobs) :
    ∃ old ∈ state.jobs, SameSettings job old := by
  have hrec : ∀ task status, job ∈ (state.record task status).jobs →
      ∃ old ∈ state.jobs, SameSettings job old := by
    intro task status hmem
    rcases Keyed.mem_of_mem_modify hmem with hold | ⟨old, hold, -, rfl⟩
    · exact ⟨job, hold, rfl⟩
    · exact ⟨old, hold, rfl⟩
  cases h with
  | advance | tick | tickEnd | notDue | due | request => exact ⟨job, hjob, rfl⟩
  | edit hedit => cases hedit
  | scheduled _ htask | requested _ htask => exact ⟨job, htask.frame.1 ▸ hjob, rfl⟩
  | scheduledDone | requestDone => exact hrec _ _ hjob

theorem EngineStep.unstarted (h : EngineStep zone limits state state')
    (hcopy : state'.Unstarted starter copy) : state.Unstarted starter copy ∨ copy ∈ state.jobs := by
  cases starter with
  | scheduler =>
    cases h with
    | advance | edit | request | requestDone => exact .inl hcopy
    | tick => exact .inr hcopy
    | tickEnd => cases hcopy
    | notDue hloop =>
      left
      show copy ∈ state.loop.unstarted
      rw [hloop]
      exact mem_cons_of_mem _ hcopy
    | due hloop =>
      left
      show copy ∈ state.loop.unstarted
      rw [hloop]
      exact hcopy
    | @scheduled now rest task task' _ hloop htask =>
      left
      show copy ∈ state.loop.unstarted
      have hrest : copy ∈ rest := by
        have hstart := htask.not_spawned
        simp only [EngineState.Unstarted, SchedulerLoop.unstarted] at hcopy
        split at hcopy
        · rename_i hspawn
          exact absurd hspawn hstart
        all_goals exact hcopy
      rw [hloop, SchedulerLoop.unstarted]
      split
      · exact mem_cons_of_mem _ hrest
      all_goals exact hrest
    | requested _ htask =>
      left
      show copy ∈ state.loop.unstarted
      rw [← htask.frame.2.2.1]
      exact hcopy
    | scheduledDone hloop hphase =>
      left
      show copy ∈ state.loop.unstarted
      rw [hloop, SchedulerLoop.unstarted, hphase]
      exact hcopy
  | request =>
    obtain ⟨held, hmem, hspawn, rfl⟩ := hcopy
    cases h with
    | advance | edit | tick | tickEnd | notDue | due | scheduledDone =>
      exact .inl ⟨held, hmem, hspawn, rfl⟩
    | request hget =>
      rcases mem_cons.mp hmem with rfl | hold
      · exact .inr (Keyed.mem_of_lookup hget).1
      · exact .inl ⟨held, hold, hspawn, rfl⟩
    | scheduled _ htask => cases htask <;> exact .inl ⟨held, hmem, hspawn, rfl⟩
    | requested hsplit htask =>
      refine .inl ⟨held, ?_, hspawn, rfl⟩
      rw [hsplit]
      rcases mem_cons.mp (perm_middle.mem_iff.mp hmem) with rfl | hstays
      · exact absurd hspawn htask.not_spawned
      · exact ((sublist_cons_self _ _).append_left _).subset hstays
    | requestDone hsplit =>
      refine .inl ⟨held, ?_, hspawn, rfl⟩
      rw [hsplit]
      exact ((sublist_cons_self _ _).append_left _).subset hmem

theorem EngineState.MayStart.unstarted (h : state.MayStart starter copy) :
    state.Unstarted starter copy := by
  cases starter with
  | scheduler =>
    obtain ⟨-, now, rest, kind, hloop⟩ := h
    show copy ∈ state.loop.unstarted
    rw [hloop]
    exact mem_cons_self
  | request =>
    obtain ⟨-, kind, hmem⟩ := h
    exact ⟨_, hmem, rfl, rfl⟩

end Permits

/-! ### Every run -/

/-- The store and the copies that are held agree with the newest edit of each job. -/
structure EditsInv (state : EditedEngine) : Prop where
  ids : (state.engine.jobs.map Ipc.Job.id).Nodup
  stored : ∀ id edit, state.lastEdit id = some edit → ∀ job ∈ state.engine.jobs, edit.Permits job
  held : ∀ id edit, state.lastEdit id = some edit → NoneOutdated state.engine edit

section Runs

variable {zone : TimeZone} {state state' : EditedEngine}

theorem EditsInv.start {clock : Int} {jobs : List Ipc.Job} {files : String → SchedFile}
    (hids : (jobs.map Ipc.Job.id).Nodup) : EditsInv (.start clock jobs files) where
  ids := hids
  stored _ _ hlast := by cases hlast
  held _ _ hlast := by cases hlast

theorem EditsInv.answer (h : EditsInv state) {edit : JobEdit} (hallow : NoneOutdated state.engine edit) :
    EditsInv
      { engine := { state.engine with jobs := edit.call.apply state.engine.jobs }
        answered := edit :: state.answered } := by
  have hlast : ∀ id last,
      (EditedEngine.mk { state.engine with jobs := edit.call.apply state.engine.jobs }
        (edit :: state.answered)).lastEdit id = some last →
      last = edit ∨ (edit.jobId ≠ last.jobId ∧ state.lastEdit id = some last) := by
    intro id last hfind
    rw [EditedEngine.lastEdit, find?_cons] at hfind
    split at hfind
    · exact .inl (Option.some.inj hfind).symm
    · rename_i hother
      have hid : last.jobId = id := by simpa using find?_some hfind
      exact .inr ⟨by simpa [hid] using hother, hfind⟩
  refine ⟨edit.call.nodup_apply h.ids, fun id last hfind job hjob => ?_, fun id last hfind => ?_⟩
  · rcases hlast id last hfind with rfl | ⟨hother, hold⟩
    · exact JobEdit.permits_of_mem_apply h.ids hjob
    · -- the older edit is about another job, which this one leaves as it was
      by_cases hid : job.id = last.jobId
      · exact h.stored id last hold job (JobCall.mem_of_mem_apply hjob (by rw [hid]; exact hother))
      · exact JobEdit.permits_of_ne hid
  · rcases hlast id last hfind with rfl | ⟨-, hold⟩
    · exact hallow
    · exact h.held id last hold

theorem EditsInv.engineStep (h : EditsInv state) {engine' : EngineState}
    (hstep : EngineStep zone noEdits state.engine engine') :
    EditsInv { state with engine := engine' } := by
  refine ⟨?_, fun id edit hlast job hjob => ?_, fun id edit hlast starter hbinds copy hcopy => ?_⟩
  · cases hstep with
    | edit hedit => cases hedit
    | advance | tick | tickEnd | notDue | due | request => exact h.ids
    | scheduled _ htask | requested _ htask => exact htask.frame.1 ▸ h.ids
    | scheduledDone | requestDone =>
      show ((JobStore.withRun _ _ _ state.engine.jobs).map Ipc.Job.id).Nodup
      rw [JobStore.map_id_withRun]
      exact h.ids
  · obtain ⟨old, hold, hsame⟩ := hstep.stored hjob
    exact (h.stored id edit hlast old hold).of_sameSettings hsame
  · rcases hstep.unstarted hcopy with hheld | hstored
    · exact h.held id edit hlast starter hbinds copy hheld
    · exact h.stored id edit hlast copy hstored

theorem EditsInv.step (h : EditsInv state) (hstep : EditedStep zone NoneOutdated state state') :
    EditsInv state' := by
  cases hstep with
  | answer hallow => exact h.answer hallow
  | engine hstep => exact h.engineStep hstep

/-- In every run in which no edit is answered while a copy is held that it puts out of
date: a run that starts is not of a job whose newest edit deleted it, and one that the
scheduler starts has the version of the newest save. -/
theorem startedRun_agrees_with_lastEdit {clock : Int} {jobs : List Ipc.Job}
    {files : String → SchedFile} (hids : (jobs.map Ipc.Job.id).Nodup)
    (hreach : EditedReaches zone NoneOutdated (.start clock jobs files) state)
    {starter : Starter} {copy : Ipc.Job} (hstart : state.engine.MayStart starter copy) :
    state.lastEdit copy.id ≠ some (.delete copy.id) ∧
      ∀ saved, state.lastEdit copy.id = some (.save saved) → starter = .scheduler →
        SameSettings copy saved := by
  have hinv : EditsInv state :=
    Transition.invariant_of_reachable (EditsInv.start hids)
      (fun _ _ hbefore hstep => hbefore.step hstep) hreach
  refine ⟨fun hlast => ?_, fun saved hlast hstarter => ?_⟩
  · exact hinv.held _ _ hlast starter trivial copy hstart.unstarted rfl
  · subst hstarter
    have hid : (JobEdit.save saved).jobId = copy.id := by simpa using find?_some hlast
    exact hinv.held _ _ hlast .scheduler trivial copy hstart.unstarted hid.symm

end Runs

def sampleSaved : Ipc.Job := { sampleMinuteJob with compress := false }

/-- The tick after a save: the loop has come to the saved job. -/
def sampleSavedTick : EditedEngine :=
  { engine :=
      { EngineState.start 0 [sampleSaved] (fun _ => none) with
        loop := .waiting 0 [] ⟨sampleSaved, .full, .spawned⟩ }
    answered := [.save sampleSaved] }

theorem sampleSavedTick_reached :
    EditedReaches (.fixed 0) NoneOutdated (.start 0 [sampleMinuteJob] fun _ => none)
      sampleSavedTick := by
  have hidle : NoneOutdated (.start 0 [sampleMinuteJob] fun _ => none) (.save sampleSaved) := by
    rintro (_ | _) hbinds copy hcopy
    · exact absurd hcopy not_mem_nil
    · cases hbinds
  exact .tail (.tail (.single (.answer hidle)) (.engine (.tick rfl))) (.engine (.due rfl rfl))

theorem sampleSavedTick_agrees :
    sampleSavedTick.engine.MayStart .scheduler sampleSaved ∧
      sampleSavedTick.lastEdit "a" = some (.save sampleSaved) ∧ SameSettings sampleSaved sampleSaved := by
  have hstart : sampleSavedTick.engine.MayStart .scheduler sampleSaved :=
    ⟨by decide, 0, [], .full, rfl⟩
  exact ⟨hstart, rfl,
    (startedRun_agrees_with_lastEdit (by decide) sampleSavedTick_reached hstart).2 _ rfl rfl⟩

def sampleNextJob : Ipc.Job := { sampleMinuteJob with id := "b", name := "job b" }

def sampleNextSaved : Ipc.Job := { sampleNextJob with compress := false }

/-- An edit is answered while the loop waits for the run of the first of two jobs; then
it comes to its copy of the second one. -/
theorem sampleNextJob_may_start (edit : JobEdit) : ∃ state,
    EditedReaches (.fixed 0) (fun _ _ => True)
      (.start 0 [sampleMinuteJob, sampleNextJob] fun _ => none) state ∧
    state.answered = [edit] ∧ state.engine.MayStart .scheduler sampleNextJob := by
  have hclaimed : EditedReaches (.fixed 0) (fun _ _ => True)
      (.start 0 [sampleMinuteJob, sampleNextJob] fun _ => none) _ :=
    .tail (.tail (.single (.engine (.tick rfl))) (.engine (.due rfl rfl)))
      (.engine (.scheduled rfl (.claim rfl (by decide))))
  have hans := hclaimed.tail (@EditedStep.answer _ _ _ edit trivial)
  have hended := (hans.tail (.engine (.scheduled rfl (.finish rfl (.failed "disk full"))))).tail
    (.engine (.scheduled rfl (.release rfl)))
  have hnext := (hended.tail (.engine (.scheduledDone rfl rfl trivial))).tail (.engine (.due rfl rfl))
  refine ⟨_, hnext, rfl, ?_, 0, [], .full, rfl⟩
  show "b" ∉ ([] : List String)
  exact not_mem_nil

/-- A job that was deleted is run, and one that was changed is run as it was before. -/
theorem heldCopy_starts_after_edit :
    (∃ state, EditedReaches (.fixed 0) (fun _ _ => True)
        (.start 0 [sampleMinuteJob, sampleNextJob] fun _ => none) state ∧
      state.lastEdit "b" = some (.delete "b") ∧
      state.engine.MayStart .scheduler sampleNextJob) ∧
    ∃ state, EditedReaches (.fixed 0) (fun _ _ => True)
        (.start 0 [sampleMinuteJob, sampleNextJob] fun _ => none) state ∧
      state.lastEdit "b" = some (.save sampleNextSaved) ∧
      state.engine.MayStart .scheduler sampleNextJob ∧ ¬ SameSettings sampleNextJob sampleNextSaved := by
  constructor
  · obtain ⟨state, hreach, hanswered, hstart⟩ := sampleNextJob_may_start (.delete "b")
    refine ⟨state, hreach, ?_, hstart⟩
    rw [EditedEngine.lastEdit, hanswered]
    rfl
  · obtain ⟨state, hreach, hanswered, hstart⟩ := sampleNextJob_may_start (.save sampleNextSaved)
    refine ⟨state, hreach, ?_, hstart, fun hsame => ?_⟩
    · rw [EditedEngine.lastEdit, hanswered]
      rfl
    · have hcompress : sampleNextJob.compress = sampleNextSaved.compress :=
        congrArg Ipc.Job.compress hsame
      cases hcompress

end PbsGui.Engine
