import PbsGui.Lib.Keyed
import PbsGui.Lib.Transition

/-!
# The claims of running jobs and their live status

`backup.rs` keeps two maps: the jobs that are running, with the token that cancels each,
and their latest progress, which the GUI polls.  `try_claim_run` fills both under one
lock and returns a guard.  Dropping the guard empties them in two critical sections, so
that the job can be claimed again between the two.  Each section is one step.
-/

namespace PbsGui.Engine

open Lib Relation List

/-! ### The maps -/

/-- Latest progress of a run. -/
structure RunStatus where
  started : Int
  fraction : Float32
  message : String

/-- What the GUI is told of a run. -/
structure RunningJob where
  jobId : String
  started : Int
  fraction : Float32
  message : String

/-- A claim that a job is running, with the token that came with it. -/
structure RunGuard where
  jobId : String
  token : Nat
  deriving DecidableEq

/-- The two maps, with the guards that exist. -/
structure RunMaps where
  /-- `running_jobs`: the cancellation token of each running job. -/
  running : List (String × Nat)
  /-- `run_status` -/
  status : List (String × RunStatus)
  nextToken : Nat
  cancelled : List Nat
  /-- The guards that are alive. -/
  alive : List RunGuard
  /-- The guards that have given back the claim and have yet to remove the status. -/
  dropping : List RunGuard

namespace RunMaps

def start : RunMaps :=
  { running := [], status := [], nextToken := 0, cancelled := [], alive := [], dropping := [] }

/-- Claim a job as running; `none` if a run is already in progress for it. -/
def tryClaimRun (maps : RunMaps) (jobId : String) (now : Int) : Option RunMaps :=
  match Keyed.lookup Prod.fst jobId maps.running with
  | some _ => none
  | none =>
    some { maps with
      running := Keyed.upsert Prod.fst (jobId, maps.nextToken) maps.running
      status := Keyed.upsert Prod.fst (jobId, ⟨now, 0, "starting..."⟩) maps.status
      nextToken := maps.nextToken + 1
      alive := ⟨jobId, maps.nextToken⟩ :: maps.alive }

/-- Update the latest progress of a run; nothing happens once it has ended. -/
def setRunStatus (maps : RunMaps) (jobId : String) (fraction : Float32) (message : String) : RunMaps :=
  { maps with
    status := Keyed.modify Prod.fst jobId
      (fun entry => (entry.1, { entry.2 with fraction := fraction, message := message })) maps.status }

/-- Cancel the run of a job, and whether there was one. -/
def cancelJob (maps : RunMaps) (jobId : String) : RunMaps × Bool :=
  match Keyed.lookup Prod.fst jobId maps.running with
  | some (_, token) => ({ maps with cancelled := token :: maps.cancelled }, true)
  | none => (maps, false)

/-- The first half of a guard's `drop`; `rest` are the other guards. -/
def dropClaim (maps : RunMaps) (guard : RunGuard) (rest : List RunGuard) : RunMaps :=
  { maps with
    running := Keyed.remove Prod.fst guard.jobId maps.running
    alive := rest
    dropping := guard :: maps.dropping }

def dropStatus (maps : RunMaps) (guard : RunGuard) (rest : List RunGuard) : RunMaps :=
  { maps with
    status := Keyed.remove Prod.fst guard.jobId maps.status
    dropping := rest }

/-- The runs in progress, as the GUI polls them. -/
def runningSnapshot (maps : RunMaps) : List RunningJob :=
  maps.status.map fun entry => ⟨entry.1, entry.2.started, entry.2.fraction, entry.2.message⟩

end RunMaps

/-- One critical section; `allow` is what is assumed of a claim that succeeds. -/
inductive GuardStep (allow : RunMaps → String → Prop) (maps : RunMaps) : RunMaps → Prop
  | claim {jobId : String} {now : Int} {claimed : RunMaps}
      (h : maps.tryClaimRun jobId now = some claimed) (hallow : allow maps jobId) :
      GuardStep allow maps claimed
  | cancel (jobId : String) : GuardStep allow maps (maps.cancelJob jobId).1
  | setStatus (jobId : String) (fraction : Float32) (message : String) :
      GuardStep allow maps (maps.setRunStatus jobId fraction message)
  | dropClaim {before after : List RunGuard} {guard : RunGuard}
      (h : maps.alive = before ++ guard :: after) :
      GuardStep allow maps (maps.dropClaim guard (before ++ after))
  | dropStatus {before after : List RunGuard} {guard : RunGuard}
      (h : maps.dropping = before ++ guard :: after) :
      GuardStep allow maps (maps.dropStatus guard (before ++ after))

def GuardReaches (allow : RunMaps → String → Prop) : RunMaps → RunMaps → Prop :=
  ReflTransGen (GuardStep allow)

/-- No guard of the job is in the middle of being dropped. -/
def NotDropping (maps : RunMaps) (jobId : String) : Prop :=
  jobId ∉ maps.dropping.map RunGuard.jobId

/-! ### The claims -/

section Claims

variable {allow : RunMaps → String → Prop} {maps next : RunMaps} {jobId : String} {now : Int}

theorem tryClaimRun_eq_some (h : maps.tryClaimRun jobId now = some next) :
    jobId ∉ maps.running.map Prod.fst ∧
      next = { maps with
        running := Keyed.upsert Prod.fst (jobId, maps.nextToken) maps.running
        status := Keyed.upsert Prod.fst (jobId, ⟨now, 0, "starting..."⟩) maps.status
        nextToken := maps.nextToken + 1
        alive := ⟨jobId, maps.nextToken⟩ :: maps.alive } := by
  unfold RunMaps.tryClaimRun at h
  split at h
  · cases h
  · rename_i hnone
    exact ⟨Keyed.lookup_eq_none_iff.mp hnone, (Option.some.inj h).symm⟩

theorem cancelJob_frame (maps : RunMaps) (jobId : String) :
    (maps.cancelJob jobId).1.running = maps.running ∧ (maps.cancelJob jobId).1.status = maps.status ∧
      (maps.cancelJob jobId).1.alive = maps.alive ∧
      (maps.cancelJob jobId).1.dropping = maps.dropping := by
  unfold RunMaps.cancelJob
  split <;> exact ⟨rfl, rfl, rfl, rfl⟩

theorem setRunStatus_keys (maps : RunMaps) (jobId : String) (fraction : Float32) (message : String) :
    (maps.setRunStatus jobId fraction message).status.map Prod.fst = maps.status.map Prod.fst :=
  Keyed.map_key_modify fun _ => rfl

/-- Of a list of guards with distinct jobs, those without one are those of other jobs. -/
theorem mem_map_erase {before after : List RunGuard} {guard : RunGuard}
    (h : ((before ++ guard :: after).map RunGuard.jobId).Nodup) :
    jobId ∈ (before ++ after).map RunGuard.jobId ↔
      jobId ≠ guard.jobId ∧ jobId ∈ (before ++ guard :: after).map RunGuard.jobId := by
  have hperm : (before ++ guard :: after).Perm (guard :: (before ++ after)) := perm_middle
  obtain ⟨hnew, -⟩ := nodup_cons.mp ((hperm.map RunGuard.jobId).nodup_iff.mp h)
  rw [(hperm.map RunGuard.jobId).mem_iff, map_cons, mem_cons]
  constructor
  · intro hmem
    exact ⟨fun heq => hnew (heq ▸ hmem), .inr hmem⟩
  · rintro ⟨hne, heq | hmem⟩
    · exact absurd heq hne
    · exact hmem

/-- The running jobs are those of the guards that are alive, one for each. -/
structure ClaimsInv (maps : RunMaps) : Prop where
  distinct : (maps.alive.map RunGuard.jobId).Nodup
  claimed : ∀ jobId, jobId ∈ maps.running.map Prod.fst ↔ jobId ∈ maps.alive.map RunGuard.jobId

theorem ClaimsInv.step (hstep : GuardStep allow maps next) (h : ClaimsInv maps) : ClaimsInv next := by
  cases hstep with
  | claim hclaim =>
    obtain ⟨hfree, rfl⟩ := tryClaimRun_eq_some hclaim
    refine ⟨nodup_cons.mpr ⟨fun hmem => hfree ((h.claimed _).mpr hmem), h.distinct⟩, ?_⟩
    intro other
    rw [Keyed.mem_keys_upsert, h.claimed, map_cons, mem_cons]
  | cancel jobId =>
    obtain ⟨hrun, -, halive, -⟩ := cancelJob_frame maps jobId
    exact ⟨halive ▸ h.distinct, by rw [hrun, halive]; exact h.claimed⟩
  | setStatus | dropStatus => exact ⟨h.distinct, h.claimed⟩
  | @dropClaim before after guard halive =>
    have hdist := halive ▸ h.distinct
    refine ⟨hdist.sublist ((sublist_cons_self _ _).append_left _ |>.map _), ?_⟩
    intro other
    rw [RunMaps.dropClaim, Keyed.mem_keys_remove, h.claimed, mem_map_erase hdist, halive]

theorem ClaimsInv.of_reaches (hreach : GuardReaches allow .start maps) : ClaimsInv maps := by
  have hstart : ClaimsInv .start := ⟨nodup_nil, fun _ => Iff.rfl⟩
  exact Transition.invariant_of_reachable hstart (fun _ _ h hstep => h.step hstep) hreach

/-- With no job claimed during a drop, the status map has the jobs of all guards, those
being dropped included, and each job has one guard. -/
structure StatusInv (maps : RunMaps) : Prop where
  distinct : ((maps.alive ++ maps.dropping).map RunGuard.jobId).Nodup
  shown : ∀ jobId, jobId ∈ maps.status.map Prod.fst ↔
    jobId ∈ (maps.alive ++ maps.dropping).map RunGuard.jobId

theorem StatusInv.step (hallow : ∀ maps jobId, allow maps jobId → NotDropping maps jobId)
    (hstep : GuardStep allow maps next) (hclaims : ClaimsInv maps) (h : StatusInv maps) :
    StatusInv next := by
  cases hstep with
  | @claim jobId _ _ hclaim hallowed =>
    obtain ⟨hfree, rfl⟩ := tryClaimRun_eq_some hclaim
    have hnew : jobId ∉ (maps.alive ++ maps.dropping).map RunGuard.jobId := by
      rw [map_append, mem_append, not_or, ← hclaims.claimed]
      exact ⟨hfree, hallow maps jobId hallowed⟩
    refine ⟨nodup_cons.mpr ⟨hnew, h.distinct⟩, fun other => ?_⟩
    rw [Keyed.mem_keys_upsert, h.shown, cons_append, map_cons, mem_cons]
  | cancel jobId =>
    obtain ⟨-, hstat, halive, hdropping⟩ := cancelJob_frame maps jobId
    refine ⟨?_, ?_⟩
    · rw [halive, hdropping]
      exact h.distinct
    · rw [hstat, halive, hdropping]
      exact h.shown
  | setStatus =>
    refine ⟨h.distinct, ?_⟩
    rw [setRunStatus_keys]
    exact h.shown
  | @dropClaim before after guard halive =>
    -- the guard moves from one list to the other
    have hperm : (before ++ after ++ guard :: maps.dropping).Perm (maps.alive ++ maps.dropping) := by
      rw [halive, append_assoc, append_assoc, cons_append]
      refine List.Perm.append_left before ?_
      exact perm_middle
    refine ⟨(hperm.map _).nodup_iff.mpr h.distinct, fun other => ?_⟩
    rw [RunMaps.dropClaim, (hperm.map _).mem_iff]
    exact h.shown other
  | @dropStatus before after guard hdropping =>
    have hdist : ((maps.alive ++ before ++ guard :: after).map RunGuard.jobId).Nodup := by
      rw [append_assoc, ← hdropping]
      exact h.distinct
    refine ⟨?_, fun other => ?_⟩
    · simp only [RunMaps.dropStatus, ← append_assoc]
      exact hdist.sublist (((sublist_cons_self _ _).append_left _).map _)
    · simp only [RunMaps.dropStatus, ← append_assoc]
      rw [Keyed.mem_keys_remove, h.shown, mem_map_erase hdist, hdropping, append_assoc]

theorem StatusInv.of_reaches (hallow : ∀ maps jobId, allow maps jobId → NotDropping maps jobId)
    (hreach : GuardReaches allow .start maps) : StatusInv maps := by
  induction hreach with
  | refl => exact ⟨nodup_nil, fun _ => Iff.rfl⟩
  | tail hpre hstep ih => exact ih.step hallow hstep (ClaimsInv.of_reaches hpre)

/-- In every interleaving at most one guard of a job is alive.  If no job is claimed while
a guard of it is being dropped, then whenever no guard is being dropped the two maps have
the same jobs, and every run in progress is among those the GUI is told of. -/
theorem liveStatus_of_notDropping (hreach : GuardReaches allow .start maps) :
    (maps.alive.map RunGuard.jobId).Nodup ∧
      ((∀ maps jobId, allow maps jobId → NotDropping maps jobId) →
        (maps.dropping = [] → ∀ jobId,
          jobId ∈ maps.status.map Prod.fst ↔ jobId ∈ maps.running.map Prod.fst) ∧
        ∀ guard ∈ maps.alive, guard.jobId ∈ maps.runningSnapshot.map RunningJob.jobId) := by
  have hclaims := ClaimsInv.of_reaches hreach
  refine ⟨hclaims.distinct, fun hallow => ?_⟩
  have hstatus := StatusInv.of_reaches hallow hreach
  constructor
  · intro hdropping jobId
    rw [hstatus.shown, hdropping, append_nil, hclaims.claimed]
  · intro guard hguard
    have hshown : guard.jobId ∈ maps.status.map Prod.fst :=
      (hstatus.shown _).mpr (mem_map_of_mem (mem_append_left _ hguard))
    rw [RunMaps.runningSnapshot, List.map_map]
    exact hshown

end Claims

/-- The job `a` is claimed. -/
def sampleClaimed : RunMaps :=
  { running := [("a", 0)], status := [("a", ⟨100, 0, "starting..."⟩)], nextToken := 1,
    cancelled := [], alive := [⟨"a", 0⟩], dropping := [] }

theorem sampleClaimed_reached {allow : RunMaps → String → Prop} (hallow : allow .start "a") :
    GuardReaches allow .start sampleClaimed :=
  .single (.claim (show RunMaps.start.tryClaimRun "a" 100 = some sampleClaimed from rfl) hallow)

/-- The GUI sees the run. -/
theorem sampleClaimed_shown :
    "a" ∈ sampleClaimed.runningSnapshot.map RunningJob.jobId :=
  ((liveStatus_of_notDropping (sampleClaimed_reached not_mem_nil)).2 fun _ _ h => h).2
    ⟨"a", 0⟩ mem_cons_self

/-- Its run is over, and the claim is given back. -/
def sampleDropping : RunMaps := sampleClaimed.dropClaim ⟨"a", 0⟩ []

/-- A request claims the job again before the status of the first run is removed. -/
def sampleReclaimed : RunMaps :=
  { sampleDropping with
    running := [("a", 1)]
    status := [("a", ⟨160, 0, "starting..."⟩)]
    nextToken := 2
    alive := [⟨"a", 1⟩] }

/-- The second run is in progress without a status: the drop of the first guard removed
it. -/
theorem reclaimedRun_not_shown :
    ∃ maps, GuardReaches (fun _ _ => True) .start maps ∧ maps.dropping = [] ∧
      "a" ∈ maps.running.map Prod.fst ∧ "a" ∉ maps.status.map Prod.fst ∧
      maps.runningSnapshot = [] := by
  have hdrop : GuardStep (fun _ _ => True) sampleClaimed sampleDropping :=
    @GuardStep.dropClaim _ sampleClaimed [] [] ⟨"a", 0⟩ rfl
  have hreclaim : GuardStep (fun _ _ => True) sampleDropping sampleReclaimed :=
    .claim (show sampleDropping.tryClaimRun "a" 160 = some sampleReclaimed from rfl) trivial
  have hremove : GuardStep (fun _ _ => True) sampleReclaimed (sampleReclaimed.dropStatus ⟨"a", 0⟩ []) :=
    @GuardStep.dropStatus _ sampleReclaimed [] [] ⟨"a", 0⟩ rfl
  refine ⟨_, (((sampleClaimed_reached trivial).tail hdrop).tail hreclaim).tail hremove, rfl, ?_⟩
  exact ⟨mem_cons_self, not_mem_nil, rfl⟩

end PbsGui.Engine
