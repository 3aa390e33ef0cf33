import PbsGui.Engine.BackupStreams
import PbsGui.Lib.CheckThenAct

/-!
# Requests that change the jobs at the same time

`SaveJob` checks the groups of its job against a copy of the list and takes the lock again to
save it; in between other requests may save and delete jobs.  `DeleteJob` and the record of a
finished run take the lock once.  The groups of the stored jobs stay apart as long as nothing
that is saved between the check of a job and its save has one of its groups.
-/

namespace PbsGui.Engine

open Lib PbsGui.Core List

/-- What a request needs of the list when it looks at it, and what it does to the list
when it takes the lock. -/
def editProtocol : CheckThenAct.Protocol (List Ipc.Job) JobCall where
  check call jobs :=
    match call with
    | .saveJob job => validateJob job = .ok () ∧ validatePbsGroups job jobs = .ok ()
    | .delete _ | .recordRun _ _ _ => True
  act := JobCall.apply

/-- Two jobs are on different servers, or use no group in common. -/
def ApartFrom (job other : Ipc.Job) : Prop :=
  ∀ serverId backupId otherId, job.destination = .pbs serverId backupId →
    other.destination = .pbs serverId otherId → GroupsApart other job

/-- No job that was saved since the check of a save has one of its groups. -/
def NoGroupTaken (call : JobCall) (since : List JobCall) : Prop :=
  ∀ job, call = .saveJob job → ∀ other, .saveJob other ∈ since → other.id ≠ job.id →
    ApartFrom job other

section Edits

variable {job other : Ipc.Job} {jobs : List Ipc.Job} {call later : JobCall}

theorem validatePbsGroups_iff :
    validatePbsGroups job jobs = .ok () ↔
      ((jobPbsGroups job).map Prod.fst).Nodup ∧
        ∀ other ∈ jobs, other.id ≠ job.id → ApartFrom job other := by
  cases hdest : job.destination with
  | folder => simp [validatePbsGroups, jobPbsGroups, ApartFrom, hdest]
  | pbs serverId backupId =>
    rw [validatePbsGroups_ok_iff hdest]
    refine and_congr_right fun _ => forall₂_congr fun other _ => imp_congr_right fun _ => ?_
    constructor
    · rintro h server id otherId hjob hother
      obtain ⟨rfl, -⟩ := Ipc.JobDestination.pbs.inj (hdest.symm.trans hjob)
      exact h ⟨otherId, hother⟩
    · rintro h ⟨otherId, hother⟩
      exact h serverId backupId otherId hdest hother

theorem ApartFrom.recorded (h : ApartFrom job other) (time : Option Int) (status : Option String) :
    ApartFrom job { other with lastRun := time, lastStatus := status } :=
  h

/-- A job that passed the check still passes after another call, unless that saved a job
with one of its groups. -/
theorem validatePbsGroups_apply (h : validatePbsGroups job jobs = .ok ())
    (hlater : ∀ other, later = .saveJob other → other.id ≠ job.id → ApartFrom job other) :
    validatePbsGroups job (later.apply jobs) = .ok () := by
  obtain ⟨hown, hothers⟩ := validatePbsGroups_iff.mp h
  refine validatePbsGroups_iff.mpr ⟨hown, fun other hother hid => ?_⟩
  cases later with
  | saveJob =>
    rcases Keyed.mem_of_mem_upsert hother with rfl | hold
    · exact hlater other rfl hid
    · exact hothers other hold hid
  | delete => exact hothers other (mem_filter.mp hother).1 hid
  | recordRun =>
    rcases Keyed.mem_of_mem_modify hother with hold | ⟨old, hold, -, rfl⟩
    · exact hothers other hold hid
    · exact (hothers old hold hid).recorded _ _

theorem GroupsInv.withRun (h : GroupsInv jobs) (id : String) (time : Int) (status : String) :
    GroupsInv (JobStore.withRun id time status jobs) := by
  -- each job is an old one, up to what is recorded of its runs
  have hold : ∀ job ∈ JobStore.withRun id time status jobs, ∃ old ∈ jobs, old.id = job.id ∧
      old.destination = job.destination ∧ jobPbsGroups old = jobPbsGroups job := by
    intro job hjob
    rcases Keyed.mem_of_mem_modify hjob with hmem | ⟨old, hmem, -, rfl⟩
    · exact ⟨job, hmem, rfl, rfl, rfl⟩
    · exact ⟨old, hmem, rfl, rfl, rfl⟩
  refine ⟨?_, fun job hjob => ?_, fun job hjob other hother hid => ?_⟩
  · rw [JobStore.map_id_withRun]
    exact h.ids
  · obtain ⟨old, hmem, -, -, hgroups⟩ := hold job hjob
    exact hgroups ▸ h.own old hmem
  · obtain ⟨old, hmem, hidOld, hdest, hgroups⟩ := hold job hjob
    obtain ⟨oldOther, hmemOther, hidOther, hdestOther, hgroupsOther⟩ := hold other hother
    intro serverId backupId otherId hjobAt hotherAt
    have hapart := h.separate old hmem oldOther hmemOther (by rwa [hidOld, hidOther]) serverId
      backupId otherId (hdest.trans hjobAt) (hdestOther.trans hotherAt)
    unfold GroupsApart at hapart ⊢
    rwa [hgroups, hgroupsOther] at hapart

theorem GroupsInv.act (h : GroupsInv jobs) (hcheck : editProtocol.check call jobs) :
    GroupsInv (editProtocol.act call jobs) := by
  cases call with
  | saveJob => exact h.upsert hcheck.2
  | delete id => exact h.remove id
  | recordRun id time status => exact h.withRun id time status

/-- A save that is handled with no other request at the same time is its check, and its
action if the check passes. -/
theorem saveJob_items {format : StoreFormat (List Ipc.Job)} {env : PersistEnv}
    {world : StoreWorld Ipc.Job} (hload : world.store.loadError = none) :
    (editProtocol.check (.saveJob job) world.store.items ∧
        (saveJob format env job world).1.store.items =
          editProtocol.act (.saveJob job) world.store.items) ∨
      ¬ editProtocol.check (.saveJob job) world.store.items ∧
        (saveJob format env job world).1 = world := by
  simp only [editProtocol, saveJob]
  split
  · rename_i e hjob
    refine .inr ⟨fun hcheck => ?_, rfl⟩
    cases hjob.symm.trans hcheck.1
  · rename_i hjob
    split
    · rename_i e hgroups
      refine .inr ⟨fun hcheck => ?_, rfl⟩
      cases hgroups.symm.trans hcheck.2
    · rename_i hgroups
      refine .inl ⟨⟨hjob, hgroups⟩, ?_⟩
      rw [JobStore.saveJob, ListStore.mutate_writable hload]
      rfl

end Edits

/-- A job with the backup id of the sample job. -/
def sampleSecondJob : Ipc.Job := { sampleFileJob with id := "b", name := "job b" }

/-- Two saves that have passed their checks, on an empty list. -/
def sampleBothChecked : CheckThenAct.Shared (List Ipc.Job) JobCall :=
  ((CheckThenAct.Shared.start []).check (.saveJob sampleFileJob)).check (.saveJob sampleSecondJob)

theorem sampleBothChecked_reached (allow : JobCall → List JobCall → Prop) :
    CheckThenAct.Reaches editProtocol allow (.start []) sampleBothChecked := by
  have hfirst : CheckThenAct.Step editProtocol allow (.start [])
      ((CheckThenAct.Shared.start []).check (.saveJob sampleFileJob)) := .check ⟨rfl, rfl⟩
  exact .tail (.single hfirst) (.check ⟨rfl, rfl⟩)

def sampleOneStored : CheckThenAct.Shared (List Ipc.Job) JobCall :=
  sampleBothChecked.act editProtocol (.saveJob sampleFileJob) [(.saveJob sampleSecondJob, [])]

theorem sampleOneStored_reached {allow : JobCall → List JobCall → Prop}
    (hallow : allow (.saveJob sampleFileJob) []) :
    CheckThenAct.Reaches editProtocol allow (.start []) sampleOneStored :=
  (sampleBothChecked_reached allow).tail
    (@CheckThenAct.Step.act _ _ editProtocol allow sampleBothChecked
      [(.saveJob sampleSecondJob, [])] [] (.saveJob sampleFileJob) [] rfl hallow)

end PbsGui.Engine
