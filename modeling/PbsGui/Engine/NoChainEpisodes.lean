import PbsGui.Lib.EventRuns
import PbsGui.Engine.Scheduler
import PbsGui.Engine.SqlOutcomes

/-!
# How long a database has had no log chain

A log backup that finds no chain is a warning until it has been so for an hour, and
a failure from then on.  Since when it has been so is kept in the state file of the
job, for each database.  A run is read here as a list of events, each with its write to the
file, and what the file says about a database is compared with the events of that database.
-/

namespace PbsGui.Engine

open Lib.EventRuns List

/-! ### Events -/

/-- What a run does that the state file keeps account of. -/
inductive SqlEvent
  /-- A log backup found no chain; the clock when that was noted and when its age was
  checked, and whether it was reported as a failure or as a warning. -/
  | noChain (database : String) (noted checked : Int) (escalated : Bool)
  /-- A backup of the database succeeded. -/
  | backedUp (database : String)
  | recordedFull (time : Int)
  | recordedLog (time : Int)
  | triedFull (time : Int)
  | triedLog (time : Int)
  deriving DecidableEq

namespace SqlEvent

def write (file : SchedFile) : SqlEvent → SchedFile
  | .noChain database noted _ _ => (SqlSched.noteNoChain {} database noted file).1
  | .backedUp database => SqlSched.clearNoChain {} database file
  | .recordedFull time => SqlSched.recordFull {} time file
  | .recordedLog time => SqlSched.recordLog {} time file
  | .triedFull time => SqlSched.recordFullAttempt {} time file
  | .triedLog time => SqlSched.recordLogAttempt {} time file

/-- The report fits the start of the episode that the file gives. -/
def Judged (file : SchedFile) : SqlEvent → Prop
  | .noChain database noted checked escalated => escalated = true ↔
      noChainEscalateSecs ≤ checked - (SqlSched.noteNoChain {} database noted file).2
  | _ => True

def readings : SqlEvent → List Int
  | .noChain _ noted checked _ => [noted, checked]
  | .backedUp _ => []
  | .recordedFull time | .recordedLog time | .triedFull time | .triedLog time => [time]

def about (name : String) : SqlEvent → Bool
  | .noChain database _ _ _ | .backedUp database => database = name
  | _ => false

def isRecord : SqlEvent → Bool
  | .noChain _ _ _ _ | .backedUp _ => false
  | _ => true

/-- Whether the event sets a timer of full backups. -/
def isFullRecord : SqlEvent → Bool
  | .recordedFull _ | .triedFull _ => true
  | _ => false

end SqlEvent

namespace SqlLoop

def turnEvents (plan : PlanKind) (run : SqlRun) (loop : SqlLoop) (turn : DbTurn) : List SqlEvent :=
  match loop.outcome plan run turn with
  | .escalated => [.noChain turn.database turn.noteTime turn.checkTime true]
  | .warned _ => [.noChain turn.database turn.noteTime turn.checkTime false]
  | .backedUp kind _ =>
    .backedUp turn.database ::
      if runIsLogButFull run kind then [.recordedFull turn.recordTime] else []
  | .queryFailed _ | .skipped _ | .sessionFailed _ | .backupFailed _ => []

def events (plan : PlanKind) (run : SqlRun) : SqlLoop → List DbTurn → List SqlEvent
  | _, [] => []
  | loop, turn :: rest =>
    loop.turnEvents plan run turn ++ events plan run (loop.takeTurn plan run turn) rest

end SqlLoop

/-- The events of a folder backup, which stops at the first failure. -/
def folderEvents : List DbTurn → List SqlEvent
  | [] => []
  | turn :: rest =>
    match turn.result with
    | .error _ => []
    | .ok _ => .backedUp turn.database :: folderEvents rest

namespace SqlRunInput

def backupEvents (input : SqlRunInput) (job : SqlJobState) : List SqlEvent :=
  match input.destination, input.key, input.connection, input.connect with
  | .pbs, .ok (), .ok _, .ok () => (input.startLoop job).events input.plan input.run input.turns
  | .folder _, _, .ok _, _ => folderEvents input.turns
  | _, _, _, _ => []

def endEvents (humanBytes : UInt64 → String) (input : SqlRunInput) (job : SqlJobState) :
    List SqlEvent :=
  match input.ending, (doBackup humanBytes input job).2, input.run with
  | .crashed _, _, _ => []
  | .cancelled _, _, .full | .finished _, .error _, .full => [.triedFull input.recordTime]
  | .cancelled _, _, .log | .finished _, .error _, .log => [.triedLog input.recordTime]
  | .finished _, .ok _, .full => [.recordedFull input.recordTime]
  | .finished _, .ok _, .log => [.recordedLog input.recordTime]

def events (humanBytes : UInt64 → String) (input : SqlRunInput) (job : SqlJobState) :
    List SqlEvent :=
  input.backupEvents job ++ input.endEvents humanBytes job

end SqlRunInput

def jobAfter (humanBytes : UInt64 → String) (runs : List SqlRunInput) (job : SqlJobState) :
    SqlJobState :=
  runs.foldl (fun job input => (runJobKind humanBytes input job).1) job

def sqlHistory (humanBytes : UInt64 → String) : List SqlRunInput → SqlJobState → List SqlEvent
  | [], _ => []
  | input :: rest, job =>
    input.events humanBytes job ++ sqlHistory humanBytes rest (runJobKind humanBytes input job).1

/-- Every access to the state file in a turn works. -/
def DbTurn.FilesWork (turn : DbTurn) : Prop :=
  turn.noteIo = {} ∧ turn.clearIo = {} ∧ turn.recordIo = {}

/-- Every access to the state file in a run works. -/
def SqlRunInput.FilesWork (input : SqlRunInput) : Prop :=
  input.readable = true ∧ input.recordIo = {} ∧ ∀ turn ∈ input.turns, turn.FilesWork

/-- The events lead from one content of the file to another. -/
def Replays (file : SchedFile) (events : List SqlEvent) (after : SchedFile) : Prop :=
  Replay SqlEvent.write SqlEvent.Judged file events after

namespace SqlLoop

variable {plan : PlanKind} {run : SqlRun} {loop : SqlLoop} {turn : DbTurn}

theorem takeTurn_events (hfiles : turn.FilesWork) :
    Replays loop.job.file (loop.turnEvents plan run turn) (loop.takeTurn plan run turn).job.file := by
  obtain ⟨hnote, hclear, hrec⟩ := hfiles
  unfold turnEvents outcome
  fun_cases takeTurn plan run loop turn with
  | case1 | case2 | case3 =>
    simp only [*]
    exact Replay.nil
  | case4 state hstate kind copyOnly note hdec message hres hsess hchain =>
    simp only [hstate, hdec, hsess, hres, if_pos hchain]
    unfold noChain
    dsimp only
    rw [land_file, hnote]
    by_cases hlasts : noChainEscalateSecs ≤ turn.checkTime -
        (SqlSched.noteNoChain {} turn.database turn.noteTime loop.job.file).2
    · rw [if_pos hlasts, if_pos hlasts]
      exact ⟨iff_of_true rfl hlasts, rfl⟩
    · rw [if_neg hlasts, if_neg hlasts]
      exact ⟨iff_of_false Bool.false_ne_true hlasts, rfl⟩
  | case5 state hstate kind copyOnly note hdec message hres hsess hchain =>
    simp only [hstate, hdec, hsess, hres, if_neg hchain, fail_job, land_file]
    exact Replay.nil
  | case6 state hstate kind copyOnly note hdec stats hres hsess =>
    simp only [hstate, hdec, hsess, hres]
    unfold succeed
    dsimp only
    rw [hclear, hrec]
    split
    · exact ⟨trivial, trivial, rfl⟩
    · exact ⟨trivial, rfl⟩

theorem foldl_takeTurn_events (loop : SqlLoop) {turns : List DbTurn}
    (hfiles : ∀ turn ∈ turns, turn.FilesWork) :
    Replays loop.job.file (loop.events plan run turns)
      (turns.foldl (takeTurn plan run) loop).job.file := by
  induction turns generalizing loop with
  | nil => exact Replay.nil
  | cons turn rest ih =>
    exact (takeTurn_events (hfiles turn mem_cons_self)).append
      (ih _ (forall_mem_cons.mp hfiles).2)

end SqlLoop

section Runs

variable {humanBytes : UInt64 → String} {input : SqlRunInput} {job : SqlJobState}

theorem endLoop_events (hfiles : input.FilesWork) :
    Replays job.file ((input.startLoop job).events input.plan input.run input.turns)
      (input.endLoop job).job.file := by
  have hloop := @SqlLoop.foldl_takeTurn_events input.plan input.run (input.startLoop job)
    input.turns hfiles.2.2
  unfold SqlRunInput.endLoop
  split
  · exact hloop
  · rw [SqlLoop.cutTurn_file]
    exact hloop

theorem doBackup_events (hfiles : input.FilesWork) (hpbs : input.destination = .pbs) :
    Replays job.file (input.backupEvents job) (doBackup humanBytes input job).1.file := by
  simp only [SqlRunInput.backupEvents, doBackup, backupSqlToPbs, hpbs]
  cases input.key with
  | error => exact Replay.nil
  | ok =>
    cases input.connection with
    | error =>
      dsimp only
      split <;> exact Replay.nil
    | ok failoverCluster =>
      cases input.connect with
      | error =>
        dsimp only
        split
        · exact Replay.nil
        · cases failoverCluster <;> exact Replay.nil
      | ok =>
        dsimp only
        split
        · next hnone =>
            rw [hnone.1]
            exact Replay.nil
        · cases failoverCluster <;> exact endLoop_events hfiles

theorem runJobKind_events (hfiles : input.FilesWork) (hpbs : input.destination = .pbs) :
    Replays job.file (input.events humanBytes job) (runJobKind humanBytes input job).1.file := by
  refine (@doBackup_events humanBytes input job hfiles hpbs).append ?_
  unfold runJobKind SqlRunInput.endEvents SqlRunInput.recordAttempt SqlRunInput.recordSuccess
  rw [hfiles.2.1]
  obtain ⟨after, result⟩ := doBackup humanBytes input job
  cases input.run <;> rcases input.ending with (_ | _) | _ | _ <;> cases result <;>
    first | exact Replay.nil | exact ⟨trivial, rfl⟩

theorem jobAfter_events {runs : List SqlRunInput} (hfiles : ∀ input ∈ runs, input.FilesWork)
    (hpbs : ∀ input ∈ runs, input.destination = .pbs) :
    Replays job.file (sqlHistory humanBytes runs job) (jobAfter humanBytes runs job).file := by
  induction runs generalizing job with
  | nil => exact Replay.nil
  | cons input rest ih =>
    exact (runJobKind_events (hfiles input mem_cons_self) (hpbs input mem_cons_self)).append
      (ih (forall_mem_cons.mp hfiles).2
        (forall_mem_cons.mp hpbs).2)

end Runs

/-! ### Episodes and timers are apart -/

/-- Since when the file says that the log backups of a database have found no chain. -/
def episodeStart (database : String) (file : SchedFile) : Option Int :=
  (SqlSched.load true file).noChainSince.lookup database

def fullTimers (file : SchedFile) : Option Int × Option Int :=
  ((SqlSched.load true file).full, (SqlSched.load true file).fullAttempt)

def logTimers (file : SchedFile) : Option Int × Option Int :=
  ((SqlSched.load true file).log, (SqlSched.load true file).logAttempt)

section Apart

variable {file left right : SchedFile} {database other : String} {noted checked : Int}
  {escalated : Bool} {event : SqlEvent} {events : List SqlEvent}

theorem lookup_filter_ne (entries : List (String × Int)) :
    (entries.filter fun entry => entry.1 != other).lookup database =
      if other = database then none else entries.lookup database := by
  induction entries with
  | nil => simp
  | cons entry rest ih =>
    obtain ⟨name, start⟩ := entry
    by_cases hname : name = other
    · rw [filter_cons_of_neg (by simpa using hname), ih, hname]
      split
      · rfl
      · next hother =>
          rw [lookup_cons, beq_eq_false_iff_ne.mpr (Ne.symm hother)]
    · rw [filter_cons_of_pos (by simpa using hname), lookup_cons, lookup_cons, ih]
      by_cases hdb : database = name
      · rw [hdb, beq_self_eq_true]
        exact (if_neg (Ne.symm hname)).symm
      · rw [beq_eq_false_iff_ne.mpr hdb]

theorem load_update (change : SchedState → SchedState) :
    SqlSched.load true (SqlSched.update {} change file) = change (SqlSched.load true file) := rfl

theorem episodeStart_noChain :
    episodeStart database (SqlEvent.write file (.noChain other noted checked escalated)) =
      if other = database then some ((episodeStart database file).getD noted)
      else episodeStart database file := by
  simp only [episodeStart, SqlEvent.write, SqlSched.noteNoChain, load_update]
  by_cases hsame : other = database
  · rw [if_pos hsame, hsame]
    cases hstart : (SqlSched.load true file).noChainSince.lookup database with
    | some => exact hstart
    | none =>
      dsimp only
      rw [lookup_cons, beq_self_eq_true]
      rfl
  · rw [if_neg hsame]
    split
    · rfl
    · rw [lookup_cons, beq_eq_false_iff_ne.mpr (Ne.symm hsame)]

theorem episodeStart_backedUp :
    episodeStart database (SqlEvent.write file (.backedUp other)) =
      if other = database then none else episodeStart database file := by
  unfold episodeStart SqlEvent.write SqlSched.clearNoChain
  dsimp only
  split
  · exact lookup_filter_ne _
  · next hnone =>
      split
      · next hsame =>
          rw [← hsame]
          exact Option.not_isSome_iff_eq_none.mp hnone
      · rfl

theorem episodeStart_of_not_about (h : event.about database = false) :
    episodeStart database (SqlEvent.write file event) = episodeStart database file := by
  cases event with
  | noChain =>
    rw [episodeStart_noChain, if_neg (of_decide_eq_false h)]
  | backedUp => rw [episodeStart_backedUp, if_neg (of_decide_eq_false h)]
  | recordedFull | recordedLog | triedFull | triedLog => rfl

theorem episodeStart_filter :
    episodeStart database (events.foldl SqlEvent.write file) =
      episodeStart database ((events.filter (SqlEvent.about database)).foldl SqlEvent.write file) := by
  refine @related_of_filter _ _ SqlEvent.write (fun _ => True) _
    (fun left right => episodeStart database left = episodeStart database right) ?_ ?_ _
    (fun _ _ => trivial) _ _ rfl
  · intro left right event _ habout hsame
    cases event with
    | noChain => rw [episodeStart_noChain, episodeStart_noChain, hsame]
    | backedUp => rw [episodeStart_backedUp, episodeStart_backedUp, hsame]
    | recordedFull | recordedLog | triedFull | triedLog => exact hsame
  · intro left right event _ habout hsame
    rw [episodeStart_of_not_about habout, hsame]

theorem timers_of_not_record (h : event.isRecord = false) :
    fullTimers (SqlEvent.write file event) = fullTimers file ∧
      logTimers (SqlEvent.write file event) = logTimers file := by
  cases event with
  | noChain =>
    simp only [fullTimers, logTimers, SqlEvent.write, SqlSched.noteNoChain, load_update]
    split <;> exact ⟨rfl, rfl⟩
  | backedUp =>
    simp only [SqlEvent.write, SqlSched.clearNoChain]
    split <;> exact ⟨rfl, rfl⟩
  | recordedFull | recordedLog | triedFull | triedLog => cases h

theorem fullTimers_filter :
    fullTimers (events.foldl SqlEvent.write file) =
      fullTimers ((events.filter SqlEvent.isFullRecord).foldl SqlEvent.write file) := by
  refine @related_of_filter _ _ SqlEvent.write (fun _ => True) _
    (fun left right => fullTimers left = fullTimers right) ?_ ?_ _ (fun _ _ => trivial) _ _ rfl
  · intro left right event _ hrec hsame
    cases event with
    | recordedFull => rfl
    | triedFull => exact Prod.ext (Prod.ext_iff.mp hsame).1 rfl
    | noChain | backedUp | recordedLog | triedLog => cases hrec
  · intro left right event _ hrec hsame
    rw [← hsame]
    cases event with
    | noChain | backedUp => exact (timers_of_not_record rfl).1
    | recordedLog | triedLog => rfl
    | recordedFull | triedFull => cases hrec

theorem logTimers_filter :
    logTimers (events.foldl SqlEvent.write file) =
      logTimers ((events.filter SqlEvent.isRecord).foldl SqlEvent.write file) := by
  refine @related_of_filter _ _ SqlEvent.write (fun _ => True) _
    (fun left right => logTimers left = logTimers right) ?_ ?_ _ (fun _ _ => trivial) _ _ rfl
  · intro left right event _ hrec hsame
    cases event with
    | recordedFull time | recordedLog time => rfl
    | triedFull => exact hsame
    | triedLog => exact Prod.ext (Prod.ext_iff.mp hsame).1 rfl
    | noChain | backedUp => cases hrec
  · intro left right event _ hrec hsame
    rw [← hsame]
    exact (timers_of_not_record hrec).2

end Apart

/-- A log backup of the database found no chain at this time, and no backup of it has
succeeded since. -/
def OpenSince (database : String) (events : List SqlEvent) (since : Int) : Prop :=
  ∃ before checked escalated later,
    events = before ++ SqlEvent.noChain database since checked escalated :: later ∧
      .backedUp database ∉ later

section Open

variable {database : String} {event : SqlEvent} {events : List SqlEvent} {since : Int}

theorem openSince_append_singleton :
    OpenSince database (events ++ [event]) since ↔
      (∃ checked escalated, event = .noChain database since checked escalated) ∨
        OpenSince database events since ∧ event ≠ .backedUp database := by
  constructor
  · rintro ⟨before, checked, escalated, later, hevs, hlater⟩
    rcases eq_nil_or_concat later with rfl | ⟨rest, last, rfl⟩
    · obtain ⟨-, hlast⟩ := append_inj' hevs rfl
      exact .inl ⟨checked, escalated, singleton_inj.mp hlast⟩
    · rw [concat_eq_append] at hevs hlater
      rw [← cons_append, ← append_assoc] at hevs
      obtain ⟨hrest, hlast⟩ := append_inj' hevs rfl
      obtain rfl := singleton_inj.mp hlast
      refine .inr ⟨⟨before, checked, escalated, rest, hrest, ?_⟩, ?_⟩
      · exact fun hmem => hlater (mem_append_left _ hmem)
      · rintro rfl
        exact hlater (mem_append_right _ mem_cons_self)
  · rintro (⟨checked, escalated, rfl⟩ | ⟨⟨before, checked, escalated, later, rfl, hlater⟩, hevent⟩)
    · exact ⟨events, checked, escalated, [], rfl, not_mem_nil⟩
    · refine ⟨before, checked, escalated, later ++ [event], by simp, ?_⟩
      rw [mem_append, mem_singleton]
      exact fun hmem => hmem.elim hlater fun hsame => hevent hsame.symm

/-- With a clock that does not go back, what is open was noted before the next event. -/
theorem OpenSince.le {noted checked : Int} {escalated : Bool}
    (h : OpenSince database events since)
    (hclock : ((events ++ [SqlEvent.noChain database noted checked escalated]).flatMap
      SqlEvent.readings).Pairwise (· ≤ ·)) : since ≤ noted := by
  obtain ⟨before, _, _, later, rfl, -⟩ := h
  rw [flatMap_append, pairwise_append] at hclock
  refine hclock.2.2 since ?_ noted ?_
  · simp [SqlEvent.readings]
  · simp [SqlEvent.readings]

/-- What happens to another database, or to a timer, closes nothing and opens nothing. -/
theorem openSince_of_not_about (h : event.about database = false) :
    OpenSince database (events ++ [event]) since ↔ OpenSince database events since := by
  rw [openSince_append_singleton]
  constructor
  · rintro (⟨_, _, rfl⟩ | ⟨hopen, -⟩)
    · simp [SqlEvent.about] at h
    · exact hopen
  · refine fun hopen => .inr ⟨hopen, ?_⟩
    rintro rfl
    simp [SqlEvent.about] at h

/-- With a clock that does not go back, the file gives the earliest time that is open,
if there is one. -/
theorem episodeStart_spec (hclock : (events.flatMap SqlEvent.readings).Pairwise (· ≤ ·)) :
    (∀ since, episodeStart database (events.foldl SqlEvent.write none) = some since →
      OpenSince database events since) ∧
    ∀ since, OpenSince database events since → ∃ start ≤ since,
      episodeStart database (events.foldl SqlEvent.write none) = some start := by
  induction events using reverseRecOn with
  | nil =>
    refine ⟨nofun, ?_⟩
    rintro since ⟨before, _, _, later, hnil, -⟩
    simp at hnil
  | append_singleton events event ih =>
    obtain ⟨hopen, hearliest⟩ := ih (by
      rw [flatMap_append] at hclock
      exact (pairwise_append.mp hclock).1)
    rw [foldl_append, foldl_cons, foldl_nil]
    cases habout : event.about database with
    | false =>
      simp only [episodeStart_of_not_about habout, openSince_of_not_about habout]
      exact ⟨hopen, hearliest⟩
    | true =>
      simp only [openSince_append_singleton]
      cases event with
      | noChain other noted checked escalated =>
        obtain rfl : other = database := of_decide_eq_true habout
        rw [episodeStart_noChain, if_pos rfl]
        constructor
        · rintro since ⟨⟩
          cases hstart : episodeStart other (events.foldl SqlEvent.write none) with
          | none => exact .inl ⟨checked, escalated, rfl⟩
          | some start => exact .inr ⟨hopen start hstart, by simp⟩
        · refine fun since hsince => ⟨_, ?_, rfl⟩
          rcases hsince with ⟨_, _, heq⟩ | ⟨hpre, -⟩
          · cases heq
            cases hstart : episodeStart other (events.foldl SqlEvent.write none) with
            | none => exact le_refl noted
            | some start => exact (hopen start hstart).le hclock
          · obtain ⟨start, hle, hstart⟩ := hearliest since hpre
            rw [hstart]
            exact hle
      | backedUp other =>
        obtain rfl : other = database := of_decide_eq_true habout
        rw [episodeStart_backedUp, if_pos rfl]
        refine ⟨nofun, ?_⟩
        rintro since (⟨_, _, hother⟩ | ⟨-, hclosed⟩)
        · cases hother
        · exact absurd rfl hclosed
      | recordedFull | recordedLog | triedFull | triedLog => cases habout

end Open

/-! ### The rule over histories -/

/-- **When a missing chain is a failure.**  In every history of runs to PBS, with state
files that work and a clock that does not go back, a log backup that finds no chain is
reported as a failure exactly when such a backup of that database, the same or an
earlier one with no success since, lies back by the limit or more; otherwise it is a
warning.  What the file holds for a database is what the events of that database lead
to, and the timers are what the records of runs lead to, the timers of full backups
what those of full backups lead to. -/
theorem escalated_iff_lasting {humanBytes : UInt64 → String} {runs : List SqlRunInput}
    (hpbs : ∀ input ∈ runs, input.destination = .pbs)
    (hfiles : ∀ input ∈ runs, input.FilesWork)
    (hclock : ((sqlHistory humanBytes runs .new).flatMap SqlEvent.readings).Pairwise (· ≤ ·)) :
    (∀ before database noted checked escalated later,
      sqlHistory humanBytes runs .new =
        before ++ SqlEvent.noChain database noted checked escalated :: later →
      (escalated = true ↔ ∃ since,
        OpenSince database (before ++ [SqlEvent.noChain database noted checked escalated]) since ∧
          noChainEscalateSecs ≤ checked - since)) ∧
    (∀ database, episodeStart database (jobAfter humanBytes runs .new).file =
      episodeStart database (((sqlHistory humanBytes runs .new).filter
        (SqlEvent.about database)).foldl SqlEvent.write none)) ∧
    fullTimers (jobAfter humanBytes runs .new).file =
      fullTimers (((sqlHistory humanBytes runs .new).filter
        SqlEvent.isFullRecord).foldl SqlEvent.write none) ∧
    logTimers (jobAfter humanBytes runs .new).file =
      logTimers (((sqlHistory humanBytes runs .new).filter
        SqlEvent.isRecord).foldl SqlEvent.write none) := by
  have hwrites := @jobAfter_events humanBytes .new runs hfiles hpbs
  have hfile : (jobAfter humanBytes runs .new).file =
      (sqlHistory humanBytes runs .new).foldl SqlEvent.write none := hwrites.last_eq
  refine ⟨?_, fun database => ?_, ?_, ?_⟩
  · intro before database noted checked escalated later hsplit
    rw [hsplit] at hwrites hclock
    have hjudged : escalated = true ↔ noChainEscalateSecs ≤
        checked - (episodeStart database (before.foldl SqlEvent.write none)).getD noted :=
      hwrites.right_of_split
    rw [append_cons, flatMap_append] at hclock
    obtain ⟨hopen, hearliest⟩ := @episodeStart_spec database _ (pairwise_append.mp hclock).1
    rw [foldl_append, foldl_cons, foldl_nil, episodeStart_noChain, if_pos rfl] at hopen hearliest
    rw [hjudged]
    constructor
    · exact fun hlasts => ⟨_, hopen _ rfl, hlasts⟩
    · rintro ⟨since, hsince, hlasts⟩
      obtain ⟨start, hle, hstart⟩ := hearliest since hsince
      rw [Option.some.inj hstart]
      omega
  · rw [hfile, episodeStart_filter]
  · rw [hfile, fullTimers_filter]
  · rw [hfile, logTimers_filter]

/-- A log run that finds no chain for its one database. -/
def noChainRun (time : Int) : SqlRunInput :=
  { run := .log, plan := .pointInTime, recordTime := time
    turns :=
      [{ sampleTurn "sales" .standalone with
          result := .error "4214: BACKUP LOG cannot be performed"
          noteTime := time
          checkTime := time }] }

/-- A full, and two log runs an hour apart that find no chain. -/
def noChainRuns (between : List SqlRunInput) : List SqlRunInput :=
  { sampleSqlRun .full .standalone ["sales"] with recordTime := 0 } ::
    noChainRun 100 :: between ++ [noChainRun 3700]

theorem noChainRuns_filesWork {between : List SqlRunInput}
    (hbetween : ∀ input ∈ between, input.FilesWork) :
    ∀ input ∈ noChainRuns between, input.FilesWork := by
  have hrun (time : Int) : (noChainRun time).FilesWork :=
    ⟨rfl, rfl, forall_mem_singleton.mpr ⟨rfl, rfl, rfl⟩⟩
  intro input hinput
  simp only [noChainRuns, cons_append, mem_cons, mem_append, not_mem_nil, or_false] at hinput
  rcases hinput with rfl | rfl | hmem | rfl
  · exact ⟨rfl, rfl, forall_mem_singleton.mpr ⟨rfl, rfl, rfl⟩⟩
  · exact hrun 100
  · exact hbetween input hmem
  · exact hrun 3700

/-- What happens before the last run if nothing does in between. -/
def noChainBefore : List SqlEvent :=
  [.backedUp "sales", .recordedFull 0, .noChain "sales" 100 100 false, .recordedLog 100]

/-- Without a backup in between the second is a failure. -/
theorem noChainRuns_escalated :
    sqlHistory sampleHumanBytes (noChainRuns []) .new =
        noChainBefore ++ SqlEvent.noChain "sales" 3700 3700 true :: [.triedLog 3700] ∧
      ∃ since, OpenSince "sales" (noChainBefore ++ [SqlEvent.noChain "sales" 3700 3700 true]) since ∧
        noChainEscalateSecs ≤ 3700 - since := by
  have hhistory : sqlHistory sampleHumanBytes (noChainRuns []) .new =
      noChainBefore ++ SqlEvent.noChain "sales" 3700 3700 true :: [.triedLog 3700] := by rfl
  obtain ⟨hrule, -⟩ := @escalated_iff_lasting sampleHumanBytes (noChainRuns []) (by decide)
    (noChainRuns_filesWork (by simp)) (by rw [hhistory]; decide)
  exact ⟨hhistory, (hrule _ _ _ _ _ _ hhistory).mp rfl⟩

/-- A run of the job while it is edited to write to a folder. -/
def folderRun : SqlRunInput :=
  { sampleSqlRun .full .standalone ["sales"] with
    destination := .folder "backups"
    recordTime := 200 }

/-- With a backup to a folder in between the second is a failure all the same, though
that backup succeeded and nothing since then is old enough. -/
theorem noChainRuns_folder :
    (∀ input ∈ noChainRuns [folderRun], input.FilesWork) ∧
    ((sqlHistory sampleHumanBytes (noChainRuns [folderRun]) .new).flatMap
      SqlEvent.readings).Pairwise (· ≤ ·) ∧
    sqlHistory sampleHumanBytes (noChainRuns [folderRun]) .new =
      (noChainBefore ++ [SqlEvent.backedUp "sales", .recordedFull 200]) ++
        SqlEvent.noChain "sales" 3700 3700 true :: [.triedLog 3700] ∧
    ¬ ∃ since, OpenSince "sales" ((noChainBefore ++ [SqlEvent.backedUp "sales", .recordedFull 200]) ++
        [SqlEvent.noChain "sales" 3700 3700 true]) since ∧ noChainEscalateSecs ≤ 3700 - since := by
  have hhistory : sqlHistory sampleHumanBytes (noChainRuns [folderRun]) .new =
      (noChainBefore ++ [SqlEvent.backedUp "sales", .recordedFull 200]) ++
        SqlEvent.noChain "sales" 3700 3700 true :: [.triedLog 3700] := by rfl
  refine ⟨noChainRuns_filesWork fun input hinput => ?_, by rw [hhistory]; decide, hhistory, ?_⟩
  · rw [mem_singleton.mp hinput]
    refine ⟨rfl, rfl, fun turn hturn => ?_⟩
    rw [mem_singleton.mp hturn]
    exact ⟨rfl, rfl, rfl⟩
  · rintro ⟨since, hsince, hlasts⟩
    rw [openSince_append_singleton] at hsince
    rcases hsince with ⟨_, _, hsame⟩ | ⟨hopen, -⟩
    · cases hsame
      exact absurd hlasts (by decide)
    · rw [append_cons, openSince_of_not_about rfl, openSince_append_singleton] at hopen
      rcases hopen with ⟨_, _, hsame⟩ | ⟨-, hclosed⟩
      · cases hsame
      · exact hclosed rfl

def RunResult.report : RunResult → Except String RunReport
  | finished report => .ok report
  | failed message => .error message
  | cancelled => .ok (RunReport.plain "cancelled")

def ChainWrites : SchedFile → SchedFile → Prop :=
  Relation.ReflTransGen fun before after => ∃ now, ChainWrite now before after

section Scheduler

variable {humanBytes : UInt64 → String} {input : SqlRunInput} {job : SqlJobState}

variable {plan : PlanKind} {run : SqlRun} {event : SqlEvent} {events : List SqlEvent}

theorem SqlLoop.chainWrite_of_mem_turnEvents {loop : SqlLoop} {turn : DbTurn}
    (h : event ∈ loop.turnEvents plan run turn) (file : SchedFile) :
    ∃ now, ChainWrite now file (event.write file) := by
  unfold turnEvents at h
  split at h
  · obtain rfl := mem_singleton.mp h
    exact ⟨_, .noteNoChain _⟩
  · obtain rfl := mem_singleton.mp h
    exact ⟨_, .noteNoChain _⟩
  · rcases mem_cons.mp h with rfl | hpromoted
    · exact ⟨0, .clearNoChain _⟩
    · split at hpromoted
      · obtain rfl := mem_singleton.mp hpromoted
        exact ⟨_, .promoted⟩
      · cases hpromoted
  all_goals cases h

theorem SqlLoop.chainWrite_of_mem_events {loop : SqlLoop} {turns : List DbTurn}
    (h : event ∈ loop.events plan run turns) (file : SchedFile) :
    ∃ now, ChainWrite now file (event.write file) := by
  induction turns generalizing loop with
  | nil => cases h
  | cons turn rest ih =>
    rcases mem_append.mp h with hturn | hrest
    · exact chainWrite_of_mem_turnEvents hturn file
    · exact ih hrest

theorem Replays.chainWrites {file after : SchedFile} (h : Replays file events after)
    (hall : ∀ event ∈ events, ∀ file, ∃ now, ChainWrite now file (event.write file)) :
    ChainWrites file after := by
  induction events generalizing file with
  | nil =>
    obtain rfl := h
    exact .refl
  | cons event rest ih =>
    obtain ⟨hwrite, hrest⟩ := forall_mem_cons.mp hall
    exact .head (hwrite file) (ih h.2 hrest)

/-- With the state file readable and writable, a run of a SQL job that the engine
survives makes some of the writes of a task and then the one at its end. -/
theorem runJobKind_writes (hfiles : input.FilesWork)
    (hend : ∀ during, input.ending ≠ .crashed during) :
    ∃ file, ChainWrites job.file file ∧ ∃ result : RunResult,
      (runJobKind humanBytes input job).1.file = result.recordIn input.run input.recordTime file ∧
      (runJobKind humanBytes input job).2 = some result.report := by
  have hback : ChainWrites job.file (doBackup humanBytes input job).1.file := by
    rcases @doBackup_cases humanBytes input job with ⟨hsame, -⟩ | ⟨-, -, hloop⟩ | ⟨taken, hfold, -⟩
    · rw [hsame]
      exact .refl
    · rw [hloop]
      exact (endLoop_events hfiles).chainWrites fun _ h => SqlLoop.chainWrite_of_mem_events h
    · rw [hfold]
      exact .refl
  refine ⟨_, hback, ?_⟩
  have hsuccess : ∀ report, (input.recordSuccess (doBackup humanBytes input job).1).file =
      (RunResult.finished report).recordIn input.run input.recordTime
        (doBackup humanBytes input job).1.file := by
    intro report
    unfold SqlRunInput.recordSuccess
    split <;> rename_i hrun <;> rw [hfiles.2.1, hrun] <;> rfl
  have hattempt : ∀ result : RunResult, (∀ report, result ≠ .finished report) →
      (input.recordAttempt (doBackup humanBytes input job).1).file =
        result.recordIn input.run input.recordTime (doBackup humanBytes input job).1.file := by
    intro result hres
    unfold SqlRunInput.recordAttempt
    cases result with
    | finished report => exact absurd rfl (hres report)
    | failed | cancelled => split <;> rename_i hrun <;> rw [hfiles.2.1, hrun] <;> rfl
  simp only [runJobKind]
  split
  · rename_i hcrashed
    exact absurd hcrashed (hend _)
  · exact ⟨.cancelled, hattempt _ (by simp), rfl⟩
  · exact ⟨.cancelled, hattempt _ (by simp), rfl⟩
  · exact ⟨.failed _, hattempt _ (by simp), rfl⟩
  · exact ⟨.finished _, hsuccess _, rfl⟩

end Scheduler

end PbsGui.Engine
