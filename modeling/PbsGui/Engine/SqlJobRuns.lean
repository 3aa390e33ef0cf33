import Mathlib.Data.List.Induction
import PbsGui.Lib.Transition
import PbsGui.Engine.SqlRun

/-!
# What the state file of a SQL job says about its backups

A log run trusts one flag per job: whether the state file records a full.  Over all histories
of runs, the first result says when every log backup on PBS has an earlier full of the same
database to restore it onto, the second when the file records a full only if one was taken.
Neither holds of every history: the flag is shared by all databases of the job, and a run that
takes nothing at all counts as a success.
-/

namespace PbsGui.Engine

open Lib List

/-! ### One turn -/

namespace SqlLoop

variable {plan : PlanKind} {run : SqlRun} {loop : SqlLoop} {turn : DbTurn} {role : Role}
  {kind : SqlBackupType} {copyOnly : Bool} {stats : Client.BackupStats} {text : String}

@[simp] theorem fail_job : (loop.fail text).job = loop.job := rfl

@[simp] theorem noChain_commits : (loop.noChain turn role).job.commits = loop.job.commits := by
  unfold noChain
  dsimp only
  split <;> rfl

@[simp] theorem succeed_commits :
    (loop.succeed run turn kind stats).job.commits = loop.job.commits := by
  unfold succeed
  dsimp only
  split <;> rfl

@[simp] theorem land_file : (loop.land turn kind copyOnly).job.file = loop.job.file := by
  unfold land
  split <;> rfl

@[simp] theorem land_failed : (loop.land turn kind copyOnly).failed = loop.failed := by
  unfold land
  split <;> rfl

/-- What a turn can do to the backups committed: nothing, or one more of what was
decided. -/
def Commits (plan : PlanKind) (run : SqlRun) (loop : SqlLoop) (turn : DbTurn)
    (commits : List SqlCommit) : Prop :=
  commits = loop.job.commits ∨ ∃ state kind copyOnly note, turn.state = .ok state ∧
    Plan.decide plan run state loop.localFull = .backup kind copyOnly note ∧
    commits = loop.job.commits ++ [⟨turn.database, kind, copyOnly, .pbs⟩]

theorem Commits.subset {commits : List SqlCommit} (h : loop.Commits plan run turn commits) :
    loop.job.commits ⊆ commits := by
  rcases h with rfl | ⟨_, _, _, _, _, _, rfl⟩
  · exact List.Subset.refl _
  · exact subset_append_left _ _

theorem land_commits {state : DbState} {note : Option String} (hstate : turn.state = .ok state)
    (hdec : Plan.decide plan run state loop.localFull = .backup kind copyOnly note) :
    loop.Commits plan run turn (loop.land turn kind copyOnly).job.commits := by
  unfold land
  split
  · exact .inr ⟨state, kind, copyOnly, note, hstate, hdec, rfl⟩
  · exact .inl rfl

theorem takeTurn_commits :
    loop.Commits plan run turn (loop.takeTurn plan run turn).job.commits := by
  fun_cases takeTurn plan run loop turn with
  | case1 => exact .inl rfl
  | case2 => exact .inl rfl
  | case3 => exact .inl rfl
  | case4 state hstate kind copyOnly note hdec =>
    rw [noChain_commits]
    exact land_commits hstate hdec
  | case5 state hstate kind copyOnly note hdec =>
    exact land_commits hstate hdec
  | case6 state hstate kind copyOnly note hdec =>
    rw [succeed_commits]
    exact .inr ⟨state, kind, copyOnly, note, hstate, hdec, rfl⟩

theorem cutTurn_commits :
    loop.Commits plan run turn (loop.cutTurn plan run turn).job.commits := by
  fun_cases cutTurn plan run loop turn with
  | case1 | case2 => exact .inl rfl
  | case3 state hstate kind copyOnly note hdec => exact land_commits hstate hdec

theorem cutTurn_file : (loop.cutTurn plan run turn).job.file = loop.job.file := by
  fun_cases cutTurn plan run loop turn with
  | case1 | case2 => rfl
  | case3 => exact land_file

theorem hasFull_of_noChain (h : SqlSched.HasFull (loop.noChain turn role).job.file) :
    SqlSched.HasFull loop.job.file := by
  unfold noChain at h
  dsimp only at h
  split at h <;> exact SqlSched.hasFull_of_noteNoChain h

theorem hasFull_of_succeed (h : SqlSched.HasFull (loop.succeed run turn kind stats).job.file) :
    SqlSched.HasFull loop.job.file ∨ kind = .full := by
  unfold succeed at h
  dsimp only at h
  split at h
  · next hpromoted => exact .inr (by simpa using (Bool.and_eq_true_iff.mp hpromoted).2)
  · exact .inl (SqlSched.hasFull_of_clearNoChain h)

def FullCommitted (commits : List SqlCommit) : Prop :=
  ∃ commit ∈ commits, commit.kind = .full

theorem FullCommitted.mono {commits more : List SqlCommit} (h : FullCommitted commits)
    (hsub : commits ⊆ more) : FullCommitted more := by
  obtain ⟨commit, hmem, hkind⟩ := h
  exact ⟨commit, hsub hmem, hkind⟩

theorem hasFull_of_takeTurn (h : SqlSched.HasFull (loop.takeTurn plan run turn).job.file) :
    SqlSched.HasFull loop.job.file ∨ FullCommitted (loop.takeTurn plan run turn).job.commits := by
  revert h
  fun_cases takeTurn plan run loop turn with
  | case1 | case2 | case3 => exact .inl
  | case4 =>
    intro h
    have hlanded := hasFull_of_noChain h
    rw [land_file] at hlanded
    exact .inl hlanded
  | case5 =>
    intro h
    rw [fail_job, land_file] at h
    exact .inl h
  | case6 =>
    intro h
    rcases hasFull_of_succeed h with hold | rfl
    · exact .inl hold
    · rw [succeed_commits]
      exact .inr ⟨_, mem_append_right _ mem_cons_self, rfl⟩

theorem fail_failed : (loop.fail text).failed ≠ [] :=
  append_ne_nil_of_right_ne_nil _ (cons_ne_nil _ _)

theorem takeTurn_failed (h : loop.failed ≠ []) : (loop.takeTurn plan run turn).failed ≠ [] := by
  fun_cases takeTurn plan run loop turn with
  | case1 | case3 | case5 => exact fail_failed
  | case2 => exact h
  | case4 =>
    unfold noChain
    dsimp only
    split
    · exact fail_failed
    · simpa [warn, onFile] using h
  | case6 =>
    unfold succeed
    dsimp only
    split <;> exact h

theorem takeTurn_full (htakes : ∀ state, turn.state = .ok state → Plan.TakesFull plan state) :
    (loop.takeTurn plan .full turn).failed ≠ [] ∨
      FullCommitted (loop.takeTurn plan .full turn).job.commits := by
  fun_cases takeTurn plan .full loop turn with
  | case1 | case3 | case5 => exact .inl fail_failed
  | case2 state hstate why hdec =>
    obtain ⟨copyOnly, hback⟩ := Plan.decide_full (htakes state hstate)
    rw [hdec] at hback
    cases hback
  | case4 state hstate kind copyOnly note hdec message hres hsess hchain =>
    obtain ⟨_, hback⟩ := Plan.decide_full (htakes state hstate)
    rw [hdec] at hback
    rw [hchain.1] at hback
    cases hback
  | case6 state hstate kind copyOnly note hdec =>
    obtain ⟨_, hback⟩ := Plan.decide_full (htakes state hstate)
    rw [hdec] at hback
    cases hback
    rw [succeed_commits]
    exact .inr ⟨_, mem_append_right _ mem_cons_self, rfl⟩

end SqlLoop

/-! ### One run -/

namespace SqlRunInput

open SqlLoop

variable {input : SqlRunInput} {job : SqlJobState} {turns : List DbTurn}

theorem loopAfter_append_singleton (turns : List DbTurn) (turn : DbTurn) :
    input.loopAfter job (turns ++ [turn]) =
      (input.loopAfter job turns).takeTurn input.plan input.run turn := by
  simp only [loopAfter, foldl_append, foldl_cons, foldl_nil]

theorem loopAfter_subset : job.commits ⊆ (input.loopAfter job turns).job.commits := by
  induction turns using reverseRecOn with
  | nil => exact List.Subset.refl _
  | append_singleton turns turn ih =>
    rw [loopAfter_append_singleton]
    exact List.Subset.trans ih takeTurn_commits.subset

theorem hasFull_of_loopAfter (h : SqlSched.HasFull (input.loopAfter job turns).job.file) :
    SqlSched.HasFull job.file ∨ FullCommitted (input.loopAfter job turns).job.commits := by
  induction turns using reverseRecOn with
  | nil => exact .inl h
  | append_singleton turns turn ih =>
    rw [loopAfter_append_singleton] at h ⊢
    rcases hasFull_of_takeTurn h with hpre | hcomm
    · exact (ih hpre).imp_right fun hearlier => hearlier.mono takeTurn_commits.subset
    · exact .inr hcomm

theorem loopAfter_full (hrun : input.run = .full) {turn : DbTurn} (hmem : turn ∈ turns)
    (htakes : ∀ state, turn.state = .ok state → Plan.TakesFull input.plan state) :
    (input.loopAfter job turns).failed ≠ [] ∨
      FullCommitted (input.loopAfter job turns).job.commits := by
  induction turns using reverseRecOn with
  | nil => exact absurd hmem (not_mem_nil)
  | append_singleton turns last ih =>
    rw [loopAfter_append_singleton]
    rcases mem_append.mp hmem with hpre | hlast
    · rcases ih hpre with hfail | hcomm
      · exact .inl (takeTurn_failed hfail)
      · exact .inr (hcomm.mono takeTurn_commits.subset)
    · rw [← mem_singleton.mp hlast, hrun]
      exact takeTurn_full htakes

theorem endLoop_subset : job.commits ⊆ (input.endLoop job).job.commits := by
  unfold endLoop
  split
  · exact loopAfter_subset
  · exact List.Subset.trans loopAfter_subset cutTurn_commits.subset

theorem hasFull_of_endLoop (h : SqlSched.HasFull (input.endLoop job).job.file) :
    SqlSched.HasFull job.file ∨ FullCommitted (input.endLoop job).job.commits := by
  unfold endLoop at h ⊢
  split at h
  · exact hasFull_of_loopAfter h
  · rw [cutTurn_file] at h
    exact (hasFull_of_loopAfter h).imp_right fun hearlier => hearlier.mono cutTurn_commits.subset

/-- The run, if it comes to its end as a full run to PBS, finds SQL Server on this
node and does not skip all of its databases. -/
def Attempts (input : SqlRunInput) : Prop :=
  ∀ cancelled, input.ending = .finished cancelled → input.run = .full →
    input.destination = .pbs →
      (input.connection = .ok true → input.connect = .ok ()) ∧
      (input.turns ≠ [] → ∃ turn ∈ input.turns, ∀ state, turn.state = .ok state →
        Plan.TakesFull input.plan state)

end SqlRunInput

section Runs

open SqlRunInput SqlLoop

variable {humanBytes : UInt64 → String} {input : SqlRunInput} {job : SqlJobState}

theorem folderTurns_commits {path : String} {turns : List DbTurn} {total : UInt64} :
    ∃ taken, (folderTurns path turns job total).1 = ⟨job.file, job.commits ++ taken⟩ ∧
      (∀ commit ∈ taken, commit.kind = .full) ∧
      ∀ sum, (folderTurns path turns job total).2 = .ok sum → turns ≠ [] → taken ≠ [] := by
  induction turns generalizing job total with
  | nil => exact ⟨[], by rw [append_nil]; rfl, by simp, fun _ _ hne => absurd rfl hne⟩
  | cons turn rest ih =>
    unfold folderTurns
    split
    · exact ⟨[], by rw [append_nil], by simp, nofun⟩
    · next stats _ =>
        let commit : SqlCommit := ⟨turn.database, .full, false, .folder path⟩
        obtain ⟨taken, hjob, hkind, -⟩ :=
          @ih { job with commits := job.commits ++ [commit] } (total + stats.bytes)
        refine ⟨commit :: taken, ?_, ?_, fun _ _ _ => cons_ne_nil _ _⟩
        · rw [hjob, append_assoc, singleton_append]
        · intro other hother
          rcases mem_cons.mp hother with rfl | hrest
          · rfl
          · exact hkind other hrest

/-- The ways a backup can go: nothing is touched, and it fails unless the instance is
active on another node; the loop over the databases runs; or the folder is written. -/
theorem doBackup_cases :
    ((doBackup humanBytes input job).1 = job ∧
      ∀ outcome, (doBackup humanBytes input job).2 = .ok outcome → input.destination = .pbs ∧
        input.connection = .ok true ∧ input.connect ≠ .ok ()) ∨
    (input.destination = .pbs ∧ (input.turns ≠ [] ∨ input.ending.during ≠ none) ∧
      doBackup humanBytes input job =
        ((input.endLoop job).job, (input.endLoop job).finish humanBytes)) ∨
    ∃ taken, (doBackup humanBytes input job).1 = ⟨job.file, job.commits ++ taken⟩ ∧
      (∀ commit ∈ taken, commit.kind = .full) ∧
      ∀ outcome, (doBackup humanBytes input job).2 = .ok outcome → taken ≠ [] := by
  cases hdest : input.destination with
  | pbs =>
    simp only [doBackup, hdest, backupSqlToPbs]
    cases hkey : input.key with
    | error => exact .inl ⟨rfl, nofun⟩
    | ok =>
      dsimp only
      split
      · exact .inl ⟨rfl, nofun⟩
      · next hsome =>
          split
          · exact .inl ⟨rfl, nofun⟩
          · next hconn hconnect =>
              exact .inl ⟨rfl, fun _ _ => ⟨trivial, hconn, by simp [hconnect]⟩⟩
          · exact .inl ⟨rfl, nofun⟩
          · refine .inr (.inl ⟨trivial, ?_, rfl⟩)
            by_cases hturns : input.turns = []
            · exact .inr fun hnone => hsome ⟨hturns, by simp [hnone]⟩
            · exact .inl hturns
  | folder path =>
    simp only [doBackup, hdest, backupSqlToFolder]
    split
    · exact .inl ⟨rfl, nofun⟩
    · next hturns =>
        split
        · exact .inl ⟨rfl, nofun⟩
        · obtain ⟨taken, hjob, hkind, hsome⟩ :=
            @folderTurns_commits job path input.turns 0
          right
          right
          split
          · next hfold =>
              rw [hfold] at hjob
              exact ⟨taken, hjob, hkind, nofun⟩
          · next hfold =>
              rw [hfold] at hjob hsome
              exact ⟨taken, hjob, hkind, fun _ _ => hsome _ rfl hturns⟩

@[simp] theorem recordSuccess_commits : (input.recordSuccess job).commits = job.commits := by
  unfold recordSuccess
  split <;> rfl

@[simp] theorem recordAttempt_commits : (input.recordAttempt job).commits = job.commits := by
  unfold recordAttempt
  split <;> rfl

theorem hasFull_of_recordAttempt (h : SqlSched.HasFull (input.recordAttempt job).file) :
    SqlSched.HasFull job.file := by
  cases hrun : input.run with
  | full | log =>
    simp only [recordAttempt, hrun] at h
    exact SqlSched.hasFull_of_update h fun _ => rfl

theorem runJobKind_commits :
    (runJobKind humanBytes input job).1.commits = (doBackup humanBytes input job).1.commits := by
  unfold runJobKind
  dsimp only
  split <;> simp

theorem SqlLoop.finish_cases (humanBytes : UInt64 → String) (loop : SqlLoop) :
    (loop.failed ≠ [] ∧ ∃ message, loop.finish humanBytes = .error message) ∨
    loop.failed = [] ∧ ∃ message, loop.finish humanBytes =
      .ok ⟨message, if loop.backedUp = 0 then none else some loop.totals, loop.warned ≠ []⟩ := by
  unfold SqlLoop.finish
  by_cases hfail : loop.failed ≠ []
  · rw [if_pos hfail]
    exact Or.inl ⟨hfail, _, rfl⟩
  · rw [if_neg hfail]
    refine Or.inr ⟨not_not.mp hfail, ?_⟩
    by_cases hnone : loop.backedUp = 0
    · rw [if_pos hnone, if_pos hnone]
      exact ⟨_, rfl⟩
    · rw [if_neg hnone, if_neg hnone]
      exact ⟨_, rfl⟩

theorem failed_of_finish {loop : SqlLoop} {outcome : Outcome}
    (h : loop.finish humanBytes = .ok outcome) : loop.failed = [] := by
  rcases loop.finish_cases humanBytes with ⟨-, message, herror⟩ | ⟨hnone, -⟩
  · rw [herror] at h
    cases h
  · exact hnone

end Runs

/-- The file records a full only if one has been committed. -/
def SqlJobState.Recorded (job : SqlJobState) : Prop :=
  SqlSched.HasFull job.file → SqlLoop.FullCommitted job.commits

namespace SqlJobState.Recorded

open SqlLoop SqlRunInput

variable {humanBytes : UInt64 → String} {input : SqlRunInput} {job : SqlJobState}

theorem doBackup (h : job.Recorded) : (doBackup humanBytes input job).1.Recorded := by
  intro hfull
  rcases @doBackup_cases humanBytes input job with ⟨hsame, -⟩ | ⟨-, -, hloop⟩ | ⟨taken, hjob, -, -⟩
  · rw [hsame] at hfull ⊢
    exact h hfull
  · rw [hloop] at hfull ⊢
    rcases hasFull_of_endLoop hfull with hpre | hcomm
    · exact (h hpre).mono endLoop_subset
    · exact hcomm
  · rw [hjob] at hfull ⊢
    exact (h hfull).mono (subset_append_left _ _)

/-- A full run that attempts something and comes to a good end has committed a full. -/
theorem of_ok (hatt : input.Attempts) {cancelled : Bool}
    (hending : input.ending = .finished cancelled) (hrun : input.run = .full) {outcome : Outcome}
    (hok : (Engine.doBackup humanBytes input job).2 = .ok outcome) :
    FullCommitted (Engine.doBackup humanBytes input job).1.commits := by
  have hdur : input.ending.during = none := by rw [hending]; rfl
  rcases @doBackup_cases humanBytes input job with
    ⟨-, hskip⟩ | ⟨hpbs, hsome, hloop⟩ | ⟨taken, hjob, hkind, hsome⟩
  · obtain ⟨hpbs, hconn, hconnect⟩ := hskip outcome hok
    exact absurd ((hatt cancelled hending hrun hpbs).1 hconn) hconnect
  · have hturns := hsome.resolve_right fun hne => hne hdur
    obtain ⟨turn, hmem, htakes⟩ := (hatt cancelled hending hrun hpbs).2 hturns
    rw [hloop] at hok ⊢
    have hend : input.endLoop job = input.loopAfter job input.turns := by
      rw [endLoop, hdur]
    rw [hend] at hok ⊢
    exact (loopAfter_full hrun hmem htakes).resolve_left fun hne => hne (failed_of_finish hok)
  · rw [hjob]
    obtain ⟨commit, hmem⟩ := exists_mem_of_ne_nil _ (hsome outcome hok)
    exact ⟨commit, mem_append_right _ hmem, hkind commit hmem⟩

theorem runJobKind (h : job.Recorded) (hatt : input.Attempts) :
    (runJobKind humanBytes input job).1.Recorded := by
  have hdone := @doBackup humanBytes input job h
  intro hfull
  rw [runJobKind_commits]
  unfold Engine.runJobKind at hfull
  dsimp only at hfull
  split at hfull
  · exact hdone hfull
  · exact hdone (hasFull_of_recordAttempt hfull)
  · exact hdone (hasFull_of_recordAttempt hfull)
  · exact hdone (hasFull_of_recordAttempt hfull)
  · next cancelled outcome hend hok =>
      cases hrun : input.run with
      | full => exact of_ok hatt hend hrun hok
      | log =>
        simp only [recordSuccess, hrun] at hfull
        exact hdone (SqlSched.hasFull_of_update hfull fun _ => rfl)

end SqlJobState.Recorded

/-- The states that runs of a job lead to, if each meets a condition. -/
def SqlJobReaches (humanBytes : UInt64 → String) (meets : SqlRunInput → SqlJobState → Prop) :
    SqlJobState → SqlJobState → Prop :=
  Relation.ReflTransGen fun job next =>
    ∃ input, meets input job ∧ next = (runJobKind humanBytes input job).1

/-- Where every full run attempts something, `last_full` returns a time only if some
run has committed a full. -/
theorem lastFull_only_if_committed {humanBytes : UInt64 → String} {job : SqlJobState}
    (hruns : SqlJobReaches humanBytes (fun input _ => input.Attempts) .new job)
    {readable : Bool} (hfull : SqlSched.lastFull readable job.file ≠ none) :
    ∃ commit ∈ job.commits, commit.kind = .full := by
  have hrecorded : job.Recorded := by
    refine @Transition.invariant_of_reachable _ _ SqlJobState.Recorded _ _ ?_ ?_ hruns
    · exact fun ⟨_, hnone, _⟩ => nomatch hnone
    · rintro state _ hstate ⟨input, hattempts, rfl⟩
      exact hstate.runJobKind hattempts
  exact hrecorded (SqlSched.hasFull_of_lastFull (Option.isSome_iff_ne_none.mpr hfull))

/-- What SQL Server reports about a sample database. -/
def sampleState (role : Role) : DbState :=
  { role := role, preferred := true, simpleRecovery := false, readOnly := false, logChain := true }

/-- A turn of a sample database whose backup succeeds. -/
def sampleTurn (database : String) (role : Role) : DbTurn :=
  { database := database, state := .ok (sampleState role)
    result := .ok { zeroStats with chunks := 1, uploaded := 1, bytes := 12 } }

/-- A run over sample databases of a point-in-time job. -/
def sampleSqlRun (run : SqlRun) (role : Role) (databases : List String) : SqlRunInput :=
  { run := run, plan := .pointInTime, recordTime := 100
    turns := databases.map fun database => sampleTurn database role }

/-- `human_bytes` below a kibibyte. -/
def sampleHumanBytes (bytes : UInt64) : String := toString bytes ++ " B"

/-- A full run on a secondary takes nothing, and the file records a full. -/
theorem lastFull_without_full :
    ∃ job, SqlJobReaches sampleHumanBytes (fun _ _ => True) .new job ∧
      SqlSched.lastFull true job.file = some 100 ∧ job.commits = [] :=
  ⟨_, .single ⟨sampleSqlRun .full .secondary ["sales"], trivial, rfl⟩, by decide, by decide⟩

/-- A full run on a standalone instance takes a full, and the file records it. -/
theorem lastFull_with_full :
    ∃ job, SqlJobReaches sampleHumanBytes (fun input _ => input.Attempts) .new job ∧
      SqlSched.lastFull true job.file = some 100 ∧ ∃ commit ∈ job.commits, commit.kind = .full := by
  have hattempts : (sampleSqlRun .full .standalone ["sales"]).Attempts := by
    refine fun _ _ _ _ => ⟨fun _ => rfl, fun _ => ⟨_, mem_cons_self, ?_⟩⟩
    rintro state ⟨⟩
    exact nofun
  have hrun : SqlJobReaches sampleHumanBytes (fun input _ => input.Attempts) .new
      (runJobKind sampleHumanBytes (sampleSqlRun .full .standalone ["sales"]) .new).1 :=
    .single ⟨_, hattempts, rfl⟩
  have hfull : SqlSched.lastFull true (runJobKind sampleHumanBytes
      (sampleSqlRun .full .standalone ["sales"]) .new).1.file = some 100 := by decide
  exact ⟨_, hrun, hfull, lastFull_only_if_committed hrun (by rw [hfull]; exact Option.some_ne_none _)⟩

/-! ### Logs and the fulls they follow -/

/-- This job has committed a full of a database to PBS. -/
def FullOf (commits : List SqlCommit) (database : String) : Prop :=
  ∃ commit ∈ commits, commit.database = database ∧ commit.kind = .full ∧ commit.destination = .pbs

/-- Every log has an earlier full of its database. -/
def LogsFollowFulls (commits : List SqlCommit) : Prop :=
  ∀ before commit later, commits = before ++ commit :: later → commit.kind = .log →
    FullOf before commit.database

theorem LogsFollowFulls.append {commits : List SqlCommit} {commit : SqlCommit}
    (h : LogsFollowFulls commits) (hlast : commit.kind = .log → FullOf commits commit.database) :
    LogsFollowFulls (commits ++ [commit]) := by
  intro before other later hsplit
  rcases eq_nil_or_concat later with rfl | ⟨later, last, rfl⟩
  · obtain ⟨rfl, hother⟩ := append_inj' hsplit rfl
    cases hother
    exact hlast
  · rw [concat_eq_append, ← cons_append, ← append_assoc] at hsplit
    exact h before other later (append_inj' hsplit rfl).1

theorem LogsFollowFulls.append_fulls {commits taken : List SqlCommit} (h : LogsFollowFulls commits)
    (hkind : ∀ commit ∈ taken, commit.kind = .full) : LogsFollowFulls (commits ++ taken) := by
  induction taken using reverseRecOn with
  | nil => simpa using h
  | append_singleton taken commit ih =>
    rw [← append_assoc]
    refine (ih (forall_mem_append.mp hkind).1).append ?_
    intro hlog
    rw [hkind commit (by simp)] at hlog
    cases hlog

/-- When it is a database's turn while this job's full is recorded, SQL Server reports
that its log can be backed up only if this job has committed a full of it. -/
def SqlLoop.Ready (loop : SqlLoop) (turn : DbTurn) : Prop :=
  ∀ state, turn.state = .ok state → loop.localFull = true → Plan.TakesLog state →
    FullOf loop.job.commits turn.database

namespace SqlRunInput

/-- The databases whose turn came, the one cut short included. -/
def allTurns (input : SqlRunInput) : List DbTurn :=
  input.turns ++ input.ending.during.toList

/-- The run is on a standalone instance or a primary. -/
def OnPrimary (input : SqlRunInput) : Prop :=
  ∀ turn ∈ input.allTurns, ∀ state, turn.state = .ok state → state.role ≠ .secondary

/-- A log run whose databases are all ready when their turn comes. -/
def Ready (input : SqlRunInput) (job : SqlJobState) : Prop :=
  input.run = .log → ∀ before turn, before ++ [turn] <+: input.allTurns →
    (input.loopAfter job before).Ready turn

end SqlRunInput

namespace LogsFollowFulls

open SqlRunInput

variable {humanBytes : UInt64 → String} {input : SqlRunInput} {job : SqlJobState}

theorem commits {plan : PlanKind} {run : SqlRun} {loop : SqlLoop} {turn : DbTurn}
    {commits : List SqlCommit} (h : LogsFollowFulls loop.job.commits)
    (hcommits : loop.Commits plan run turn commits)
    (hrole : ∀ state, turn.state = .ok state → state.role ≠ .secondary)
    (hready : run = .log → loop.Ready turn) : LogsFollowFulls commits := by
  rcases hcommits with rfl | ⟨state, kind, copyOnly, note, hstate, hdec, rfl⟩
  · exact h
  · refine h.append fun hkind => ?_
    cases hkind
    obtain ⟨hlog, hloc, htakes⟩ := Plan.decide_eq_log hdec (hrole state hstate)
    exact hready hlog state hstate hloc htakes

variable (h : LogsFollowFulls job.commits) (hprimary : input.OnPrimary) (hready : input.Ready job)

include h hprimary hready

theorem loopAfter {turns : List DbTurn} (hturns : turns <+: input.allTurns) :
    LogsFollowFulls (input.loopAfter job turns).job.commits := by
  induction turns using reverseRecOn with
  | nil => exact h
  | append_singleton turns turn ih =>
    rw [loopAfter_append_singleton]
    have hpre := ih ((prefix_append turns [turn]).trans hturns)
    refine hpre.commits SqlLoop.takeTurn_commits ?_ fun hrun => hready hrun turns turn hturns
    exact hprimary turn (hturns.subset (by simp))

theorem endLoop : LogsFollowFulls (input.endLoop job).job.commits := by
  have hloop := h.loopAfter hprimary hready (prefix_append input.turns _)
  unfold SqlRunInput.endLoop
  split
  · exact hloop
  · next turn hdur =>
      have hturn : input.turns ++ [turn] <+: input.allTurns := by
        rw [allTurns, hdur]
        exact prefix_refl _
      refine hloop.commits SqlLoop.cutTurn_commits ?_ fun hrun => hready hrun _ turn hturn
      exact hprimary turn (hturn.subset (by simp))

theorem runJobKind : LogsFollowFulls (runJobKind humanBytes input job).1.commits := by
  rw [runJobKind_commits]
  rcases @doBackup_cases humanBytes input job with
    ⟨hsame, -⟩ | ⟨-, -, hloop⟩ | ⟨taken, hjob, hkind, -⟩
  · rw [hsame]
    exact h
  · rw [hloop]
    exact h.endLoop hprimary hready
  · rw [hjob]
    exact h.append_fulls hkind

end LogsFollowFulls

theorem sampleSqlRun_onPrimary {run : SqlRun} {databases : List String} :
    (sampleSqlRun run .standalone databases).OnPrimary := by
  intro turn hturn state hstate
  rw [SqlRunInput.allTurns, sampleSqlRun, RunEnd.during, Option.toList_none, append_nil] at hturn
  obtain ⟨database, -, rfl⟩ := mem_map.mp hturn
  cases hstate
  exact nofun

/-- A job after a full run over one sample database. -/
def sampleAfterFull : SqlJobState :=
  (runJobKind sampleHumanBytes (sampleSqlRun .full .standalone ["sales"]) .new).1

end PbsGui.Engine
