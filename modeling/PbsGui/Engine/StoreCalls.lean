import PbsGui.Engine.ListStore
import PbsGui.Lib.Writeback

/-!
# Concurrent calls on the job store

The mutators of the job store take its lock twice: to change the list, and to write
it (`persist` holds the lock across the snapshot and the write).  Between the two
another caller may do either.  This is the shared value of `Lib.Writeback`, with
the list of jobs as the value and the signed file as its copy.
-/

namespace PbsGui.Engine

open Lib PbsGui.Core

/-- The file can be loaded and holds exactly these jobs; no file holds none. -/
def FileHolds (format : StoreFormat (List Ipc.Job)) (signing : Signing) (path : StorePath)
    (disk : Disk) (jobs : List Ipc.Job) : Prop :=
  loadList format signing none disk path = (jobs, none)

/-- A store that loaded cleanly, with this list in memory. -/
def loadedStore (path : StorePath) (jobs : List Ipc.Job) : JobStore :=
  { path := path, items := jobs, loadError := none }

/-- The second step of a call: `persist` succeeds and leaves this disk. -/
def Persists (format : StoreFormat (List Ipc.Job)) (signing : Signing) (path : StorePath)
    (jobs : List Ipc.Job) (before after : Disk) : Prop :=
  ∃ write : WriteEnv,
    (loadedStore path jobs).persist format { signing := signing, write := write } before =
      (after, .ok ())

abbrev JobStoreCalls := Writeback (List Ipc.Job) JobCall Disk

/-- The states that concurrent calls can lead to from a store loaded from `disk`. -/
def StoreReaches (format : StoreFormat (List Ipc.Job)) (signing : Signing) (path : StorePath)
    (jobs : List Ipc.Job) (disk : Disk) : JobStoreCalls → Prop :=
  Relation.ReflTransGen (Writeback.Step JobCall.apply (Persists format signing path))
    (Writeback.start jobs disk)

section Calls

variable {format : StoreFormat (List Ipc.Job)} {signing : Signing} {path : StorePath}
  {jobs : List Ipc.Job} {disk before after : Disk} {calls : JobStoreCalls}

theorem Persists.fileHolds (hformat : format.Lawful) (h : Persists format signing path jobs before after) :
    FileHolds format signing path after jobs := by
  obtain ⟨write, hpersist⟩ := h
  simp only [ListStore.persist, ListStore.ensureWritable, loadedStore] at hpersist
  split at hpersist
  · cases hpersist
  · rename_i data hdata
    have hfile : after path = some data := by
      have hwrit := writeAtomic_ok (congrArg Prod.snd hpersist)
      rwa [congrArg Prod.fst hpersist] at hwrit
    have hread : readFile none after path = .ok data := by
      simp only [readFile, hfile]
    simp only [FileHolds, loadList, hread, deserialize_serialize hformat rfl hdata]

theorem JobCall.nodup_apply (call : JobCall) (h : (jobs.map Ipc.Job.id).Nodup) :
    ((call.apply jobs).map Ipc.Job.id).Nodup := by
  cases call with
  | saveJob => exact Keyed.nodup_upsert h
  | delete => exact Keyed.nodup_remove h
  | recordRun id time status =>
    show ((JobStore.withRun id time status jobs).map Ipc.Job.id).Nodup
    rwa [JobStore.map_id_withRun]

theorem nodup_of_reaches (h : (jobs.map Ipc.Job.id).Nodup)
    (hreach : StoreReaches format signing path jobs disk calls) :
    (calls.memory.map Ipc.Job.id).Nodup := by
  refine @Transition.invariant_of_reachable _ _
    (fun state : JobStoreCalls => (state.memory.map Ipc.Job.id).Nodup) _ _ h ?_ hreach
  intro before after hnodup hstep
  cases hstep with
  | change call => exact call.nodup_apply hnodup
  | write => exact hnodup

theorem run_eq_two_steps (call : JobCall) (write : WriteEnv) {world : StoreWorld Ipc.Job}
    (hrun : call.run format { signing := signing, write := write }
      ⟨loadedStore path jobs, disk⟩ = (world, .ok ())) :
    StoreReaches format signing path jobs disk
      { memory := world.store.items, disk := world.disk, changes := [call], pending := [],
        returned := [(0, 1)] } := by
  rw [JobCall.run_eq, ListStore.mutate_writable rfl] at hrun
  obtain ⟨hworld, hres⟩ := Prod.mk.inj hrun
  subst hworld
  have hchanged : StoreReaches format signing path jobs disk
      { memory := call.apply jobs, disk := disk, changes := [call], pending := [0],
        returned := [] } :=
    .single (.change call)
  refine hchanged.tail ?_
  exact @Writeback.Step.write _ _ _ _ _
    { memory := call.apply jobs, disk := disk, changes := [call], pending := [0], returned := [] }
    0 _ (List.mem_singleton.mpr rfl) ⟨write, Prod.ext rfl hres⟩

end Calls

/-- Whatever the order of the steps of concurrent calls on a store that loaded: the
ids stay distinct; with no call between its steps the file holds the list in memory;
and from the moment a call has returned, the file holds the list after some of the
changes in the order they were made, with the call's own change and every change made
before its write among them. -/
theorem jobStore_calls_serializable {format : StoreFormat (List Ipc.Job)} (hformat : format.Lawful)
    {signing : Signing} {path : StorePath} {jobs : List Ipc.Job} {disk : Disk}
    (hload : FileHolds format signing path disk jobs) {calls : JobStoreCalls}
    (hreach : StoreReaches format signing path jobs disk calls) :
    ((jobs.map Ipc.Job.id).Nodup → (calls.memory.map Ipc.Job.id).Nodup) ∧
    (calls.pending = [] → FileHolds format signing path calls.disk calls.memory) ∧
    ∀ call ∈ calls.returned, ∃ written,
      call.1 < call.2 ∧ call.2 ≤ written ∧ written ≤ calls.changes.length ∧
      FileHolds format signing path calls.disk
        (Writeback.replay JobCall.apply jobs (calls.changes.take written)) := by
  obtain ⟨written, hinv⟩ := Writeback.Inv.of_reaches
    (fun _ _ _ hpersists => hpersists.fileHolds hformat) hload hreach
  refine ⟨fun hnodup => nodup_of_reaches hnodup hreach, hinv.holds_memory, ?_⟩
  intro call hcall
  obtain ⟨hlt, hle⟩ := hinv.returned call hcall
  exact ⟨written, hlt, hle, hinv.bound, hinv.disk⟩

/-- The disk after a write of the sample store. -/
def samplePersisted (disk : Disk) : Disk :=
  ((loadedStore samplePath [sampleFileJob]).persist sampleFormat { signing := sampleSigning } disk).1

/-- A save and a delete on the sample store: both changes are made before either is
written, and the later one is written first. -/
theorem interleavedCalls_on_disk :
    FileHolds sampleFormat sampleSigning samplePath
      (samplePersisted (samplePersisted sampleStore.disk)) [sampleFileJob] := by
  have hload : FileHolds sampleFormat sampleSigning samplePath sampleStore.disk [] := rfl
  have hchanged : StoreReaches sampleFormat sampleSigning samplePath [] sampleStore.disk
      { memory := [sampleFileJob], disk := sampleStore.disk,
        changes := [.saveJob sampleFileJob, .delete "b"], pending := [0, 1], returned := [] } :=
    .tail (.single (.change (JobCall.saveJob sampleFileJob))) (.change (JobCall.delete "b"))
  have hlater := hchanged.tail (@Writeback.Step.write _ _ _ _ _ _ 1
    (samplePersisted sampleStore.disk) (by decide) ⟨{}, rfl⟩)
  have hboth := hlater.tail (@Writeback.Step.write _ _ _ _ _ _ 0
    (samplePersisted (samplePersisted sampleStore.disk)) (by decide) ⟨{}, rfl⟩)
  exact (jobStore_calls_serializable sampleFormat_lawful hload hboth).2.1 rfl

end PbsGui.Engine
