import PbsGui.Engine.Plan
import PbsGui.Ipc.Protocol
import PbsGui.Lib.Keyed

/-!
# The snapshot groups that a job writes

Each job writes its snapshots on a server under group names made from its backup id
and, for databases, their names with every unsafe character replaced.  A job is saved
only if its groups differ from one another and from those of every other job on the
same server.
-/

namespace PbsGui.Engine

open Lib List

/-- PBS-safe slug for snapshot groups and archive names. -/
def sanitize (value : String) : String :=
  String.ofList (value.toList.map fun c =>
    if c.isAlphanum || c = '.' || c = '_' || c = '-' then c.toLower else '_')

/-- The snapshot group and archive name for a database in a SQL job. -/
def sqlGroupAndArchive (backupId database : String) (backupType : SqlBackupType) : String × String :=
  let db := sanitize database
  let group :=
    match backupType with
    | .log => backupId ++ "-" ++ db ++ "-log"
    | _ => backupId ++ "-" ++ db
  (group, db ++ ".didx")

def takesLogs : Ipc.SqlProtection → Bool
  | .pointInTime _ _ => true
  | .dailyRestorePoints _ | .secondaryCopy _ => false

/-- Every snapshot group a job will write, with a description of what lands there. -/
def jobPbsGroups (job : Ipc.Job) : List (String × String) :=
  match job.destination with
  | .folder _ => []
  | .pbs _ backupId =>
    match job.source with
    | .files _ _ _ => [(backupId, "the file backups")]
    | .sql _ databases protection =>
      databases.flatMap fun db =>
        ((sqlGroupAndArchive backupId db .full).1, "full backups of [" ++ db ++ "]") ::
          if takesLogs protection then
            [((sqlGroupAndArchive backupId db .log).1, "log backups of [" ++ db ++ "]")]
          else []

/-- The first loop of the check: a group that was seen before. -/
def checkOwnGroups (seen : List (String × String)) : List (String × String) → Except String Unit
  | [] => .ok ()
  | (group, what) :: rest =>
    match Keyed.lookup Prod.fst group seen with
    | some (_, other) =>
      .error ("snapshot group collision inside this job: " ++ what ++ " and " ++ other ++
        " would both write the PBS group '" ++ group ++
        "'; change the backup id or deselect one of them")
    | none => checkOwnGroups ((group, what) :: seen) rest

/-- The second loop: the groups of one other job. -/
def checkOtherGroups (groups : List (String × String)) (otherName : String) :
    List (String × String) → Except String Unit
  | [] => .ok ()
  | (otherGroup, otherWhat) :: rest =>
    match Keyed.lookup Prod.fst otherGroup groups with
    | some (group, what) =>
      .error ("snapshot group collision: " ++ what ++ " would write the PBS group '" ++ group ++
        "', which job '" ++ otherName ++ "' already uses for " ++ otherWhat ++
        "; pick a different backup id")
    | none => checkOtherGroups groups otherName rest

/-- The second loop over all stored jobs; a job is not compared with itself. -/
def checkOtherJobs (job : Ipc.Job) (serverId : String) : List Ipc.Job → Except String Unit
  | [] => .ok ()
  | other :: rest =>
    if other.id = job.id then checkOtherJobs job serverId rest
    else
      match other.destination with
      | .folder _ => checkOtherJobs job serverId rest
      | .pbs otherServer _ =>
        if otherServer = serverId then
          match checkOtherGroups (jobPbsGroups job) other.name (jobPbsGroups other) with
          | .error e => .error e
          | .ok () => checkOtherJobs job serverId rest
        else checkOtherJobs job serverId rest

/-- Reject a job whose snapshot groups collide, among themselves or with those of
another saved job on the same server. -/
def validatePbsGroups (job : Ipc.Job) (existing : List Ipc.Job) : Except String Unit :=
  match job.destination with
  | .folder _ => .ok ()
  | .pbs serverId _ =>
    match checkOwnGroups [] (jobPbsGroups job) with
    | .error e => .error e
    | .ok () => checkOtherJobs job serverId existing

section Check

variable {job other : Ipc.Job} {serverId : String} {existing : List Ipc.Job}
  {groups others seen : List (String × String)} {name : String}

/-- Two jobs on one server use no group in common. -/
def GroupsApart (job other : Ipc.Job) : Prop :=
  ∀ group ∈ (jobPbsGroups job).map Prod.fst, group ∉ (jobPbsGroups other).map Prod.fst

theorem checkOwnGroups_ok_iff :
    checkOwnGroups seen groups = .ok () ↔
      (groups.map Prod.fst).Nodup ∧ ∀ group ∈ groups.map Prod.fst, group ∉ seen.map Prod.fst := by
  induction groups generalizing seen with
  | nil => simp [checkOwnGroups]
  | cons entry rest ih =>
    obtain ⟨group, what⟩ := entry
    simp only [map_cons, nodup_cons, mem_cons, forall_eq_or_imp]
    rw [checkOwnGroups]
    split
    · rename_i other hfound
      have hseen : group ∈ seen.map Prod.fst := by
        rw [← Keyed.lookup_isSome_iff, hfound]
        rfl
      exact iff_of_false (by simp) fun h => h.2.1 hseen
    · rename_i hnone
      have hnew := Keyed.lookup_eq_none_iff.mp hnone
      rw [ih]
      simp only [map_cons, mem_cons, not_or]
      constructor
      · rintro ⟨hnodup, hfresh⟩
        exact ⟨⟨fun hmem => (hfresh group hmem).1 rfl, hnodup⟩, hnew, fun g hg => (hfresh g hg).2⟩
      · rintro ⟨⟨hnot, hnodup⟩, -, hrest⟩
        exact ⟨hnodup, fun g hg => ⟨fun heq => hnot (heq ▸ hg), hrest g hg⟩⟩

theorem checkOtherGroups_ok_iff :
    checkOtherGroups groups name others = .ok () ↔
      ∀ group ∈ others.map Prod.fst, group ∉ groups.map Prod.fst := by
  induction others with
  | nil => simp [checkOtherGroups]
  | cons entry rest ih =>
    obtain ⟨otherGroup, otherWhat⟩ := entry
    simp only [map_cons, mem_cons, forall_eq_or_imp]
    rw [checkOtherGroups]
    split
    · rename_i group what hfound
      have hmem : otherGroup ∈ groups.map Prod.fst := by
        rw [← Keyed.lookup_isSome_iff, hfound]
        rfl
      exact iff_of_false (by simp) fun h => h.1 hmem
    · rename_i hnone
      rw [ih]
      exact (and_iff_right (Keyed.lookup_eq_none_iff.mp hnone)).symm

theorem checkOtherJobs_ok_iff :
    checkOtherJobs job serverId existing = .ok () ↔
      ∀ other ∈ existing, other.id ≠ job.id →
        (∃ backupId, other.destination = .pbs serverId backupId) → GroupsApart other job := by
  induction existing with
  | nil => simp [checkOtherJobs]
  | cons first rest ih =>
    simp only [mem_cons, forall_eq_or_imp, ← ih]
    rw [checkOtherJobs]
    by_cases hid : first.id = job.id
    · simp [hid]
    · rw [if_neg hid]
      cases hdest : first.destination with
      | folder => simp
      | pbs otherServer backupId =>
        by_cases hserver : otherServer = serverId
        · have hgroups := @checkOtherGroups_ok_iff (jobPbsGroups job) (jobPbsGroups first) first.name
          simp only [hserver, if_true]
          split
          · rename_i e hcollides
            rw [hcollides] at hgroups
            constructor
            · rintro ⟨⟩
            · rintro ⟨hapart, -⟩
              have := hgroups.mpr (hapart hid ⟨backupId, rfl⟩)
              cases this
          · rename_i hpassed
            have hapart : GroupsApart first job := hgroups.mp hpassed
            exact ⟨fun hrest => ⟨fun _ _ => hapart, hrest⟩, And.right⟩
        · simp [hserver]

/-- A job that goes to a server passes exactly if its groups are distinct and no other
stored job on that server uses one of them. -/
theorem validatePbsGroups_ok_iff {backupId : String} (h : job.destination = .pbs serverId backupId) :
    validatePbsGroups job existing = .ok () ↔
      ((jobPbsGroups job).map Prod.fst).Nodup ∧
      ∀ other ∈ existing, other.id ≠ job.id →
        (∃ otherId, other.destination = .pbs serverId otherId) → GroupsApart other job := by
  have hown := @checkOwnGroups_ok_iff (jobPbsGroups job) []
  simp only [map_nil, not_mem_nil, not_false_eq_true, implies_true, and_true] at hown
  rw [validatePbsGroups, h, ← hown, ← checkOtherJobs_ok_iff]
  dsimp only
  split
  · rename_i e hcollides
    simp [hcollides]
  · rename_i hpassed
    simp [hpassed]

end Check

end PbsGui.Engine
