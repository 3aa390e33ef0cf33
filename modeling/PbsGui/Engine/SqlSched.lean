import Mathlib.Data.List.Basic

/-!
# The timing state of a SQL job

`sqlsched.rs` keeps one small file per job: when the last full and the last log
backup ran, when each was last attempted, and since when the log backups of a
database have found no chain.  A file that cannot be read counts as empty, and a write that
fails leaves the old content or a file that no longer parses.
-/

namespace PbsGui.Engine

/-- The content of a job's state file. -/
structure SchedState where
  /-- When the last successful full backup ran. -/
  full : Option Int := none
  /-- When the last successful log backup ran. -/
  log : Option Int := none
  /-- When a full backup was last attempted. -/
  fullAttempt : Option Int := none
  /-- When a log backup was last attempted. -/
  logAttempt : Option Int := none
  /-- Per database, since when log backups have found no chain. -/
  noChainSince : List (String × Int) := []
  deriving DecidableEq

/-- The file on disk; `none` if there is none or it does not parse. -/
abbrev SchedFile := Option SchedState

/-- How a write of the file ends. -/
inductive StoreResult
  | stored
  /-- Nothing was written. -/
  | failed
  /-- The file was cut short. -/
  | torn
  deriving DecidableEq

/-- What the file system does during one load and store. -/
structure FileIo where
  readable : Bool := true
  result : StoreResult := .stored

namespace SqlSched

/-- Load the state; what cannot be read counts as empty. -/
def load (readable : Bool) (file : SchedFile) : SchedState :=
  if readable then file.getD {} else {}

def store (result : StoreResult) (state : SchedState) (file : SchedFile) : SchedFile :=
  match result with
  | .stored => some state
  | .failed => file
  | .torn => none

/-- When the last successful full backup ran, if any. -/
def lastFull (readable : Bool) (file : SchedFile) : Option Int :=
  (load readable file).full

/-- When a full backup was last attempted, or else last succeeded. -/
def lastFullAttempt (readable : Bool) (file : SchedFile) : Option Int :=
  (load readable file).fullAttempt.or (load readable file).full

/-- When a log backup was last attempted, or else last succeeded. -/
def lastLogAttempt (readable : Bool) (file : SchedFile) : Option Int :=
  (load readable file).logAttempt.or (load readable file).log

/-- Load the state, change it and store it again. -/
def update (io : FileIo) (change : SchedState → SchedState) (file : SchedFile) : SchedFile :=
  store io.result (change (load io.readable file)) file

/-- Record a successful full backup, which anchors the log chain as well. -/
def recordFull (io : FileIo) (time : Int) : SchedFile → SchedFile :=
  update io fun s =>
    { s with full := some time, log := some time, fullAttempt := some time,
             logAttempt := some time }

def recordLog (io : FileIo) (time : Int) : SchedFile → SchedFile :=
  update io fun s => { s with log := some time, logAttempt := some time }

def recordFullAttempt (io : FileIo) (time : Int) : SchedFile → SchedFile :=
  update io fun s => { s with fullAttempt := some time }

def recordLogAttempt (io : FileIo) (time : Int) : SchedFile → SchedFile :=
  update io fun s => { s with logAttempt := some time }

/-- Note that a log backup of a database found no chain, and since when that has
been so (`entry(..).or_insert(now)`). -/
def noteNoChain (io : FileIo) (database : String) (now : Int) (file : SchedFile) :
    SchedFile × Int :=
  let change (s : SchedState) : SchedState :=
    match s.noChainSince.lookup database with
    | some _ => s
    | none => { s with noChainSince := (database, now) :: s.noChainSince }
  (update io change file, ((load io.readable file).noChainSince.lookup database).getD now)

/-- Forget a database's no-chain episode; nothing is stored if there is none. -/
def clearNoChain (io : FileIo) (database : String) (file : SchedFile) : SchedFile :=
  if ((load io.readable file).noChainSince.lookup database).isSome then
    update io (fun s =>
      { s with noChainSince := s.noChainSince.filter fun entry => entry.1 != database }) file
  else
    file

def HasFull (file : SchedFile) : Prop :=
  ∃ state, file = some state ∧ state.full.isSome

section HasFull

variable {file : SchedFile} {io : FileIo} {readable : Bool} {database : String} {time : Int}

theorem hasFull_of_lastFull (h : (lastFull readable file).isSome) : HasFull file := by
  cases readable with
  | false => exact absurd h (by simp [lastFull, load])
  | true =>
    cases file with
    | none => exact absurd h (by simp [lastFull, load])
    | some state => exact ⟨state, rfl, h⟩

theorem hasFull_of_update {change : SchedState → SchedState}
    (h : HasFull (update io change file)) (hchange : ∀ s, (change s).full = s.full) :
    HasFull file := by
  obtain ⟨state, hfile, hfull⟩ := h
  unfold update store at hfile
  split at hfile
  · cases hfile
    rw [hchange] at hfull
    exact hasFull_of_lastFull hfull
  · exact ⟨state, hfile, hfull⟩
  · cases hfile

theorem hasFull_of_noteNoChain (h : HasFull (noteNoChain io database time file).1) :
    HasFull file := by
  simp only [noteNoChain] at h
  refine hasFull_of_update h fun s => ?_
  split <;> rfl

theorem hasFull_of_clearNoChain (h : HasFull (clearNoChain io database file)) :
    HasFull file := by
  unfold clearNoChain at h
  split at h
  · exact hasFull_of_update h fun _ => rfl
  · exact h

end HasFull

end SqlSched

end PbsGui.Engine
