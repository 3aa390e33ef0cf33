import PbsGui.Engine.BackupMeta
import PbsGui.Engine.ClockGaps
import PbsGui.Engine.MoveClause
import PbsGui.Lib.IsoTime

/-!
# The statements of a point-in-time restore

`restore_chain` and `restore_chain_streamed` (`sql/vdi.rs`) send one statement for each
backup of the chain: the full with its files relocated, then the logs with the target time
as a literal in the server's local time, and at last the recovery.  The literal is the target
in UTC plus the offset that the server has now, so it stands for the target if the offset was
the same then.
-/

namespace PbsGui.Engine

open Lib List

/-! ### The statements -/

/-- What the server answers to the queries before the first statement. -/
structure ServerAnswers where
  /-- `SELECT DATEDIFF(MINUTE, GETUTCDATE(), GETDATE())`. -/
  offsetMin : Option Int
  dataDir : List Char
  logDir : List Char

/-- What a restore is asked for. -/
structure ChainRequest where
  sourceDatabase : List Char
  targetDatabase : List Char
  targetUnix : Int
  forceRelocate : Bool

def ChainRequest.newName (request : ChainRequest) : Bool :=
  request.forceRelocate ||
    !(request.sourceDatabase.map Char.toLower == request.targetDatabase.map Char.toLower)

/-- The target time in the server's local time, by its current offset.  A time that is not
representable gives no text. -/
def stopat (offsetMin : Option Int) (targetUnix : Int) : List Char :=
  let localUnix := targetUnix + offsetMin.getD 0 * 60
  if InCalendar (dateOfLocal localUnix) then formatIso localUnix else []

def fullStatement (target moves set : List Char) : List Char :=
  "RESTORE DATABASE [".toList ++ target ++ "] FROM VIRTUAL_DEVICE = '".toList ++ set ++
    "' WITH REPLACE, NORECOVERY".toList ++ moves

def logStatement (target stopat set : List Char) : List Char :=
  "RESTORE LOG [".toList ++ target ++ "] FROM VIRTUAL_DEVICE = '".toList ++ set ++
    "' WITH STOPAT = N'".toList ++ stopat ++ "', NORECOVERY".toList

def recoverStatement (target : List Char) : List Char :=
  "RESTORE DATABASE [".toList ++ target ++ "] WITH RECOVERY".toList

/-- One statement for each device set, and the recovery. -/
def chainStatements (request : ChainRequest) (answers : ServerAnswers) (moves : List Char)
    (sets : List (List Char)) : List (List Char) :=
  let target := doubleMarks ']' request.targetDatabase
  (sets.mapIdx fun i set =>
    if i = 0 then fullStatement target moves set
    else logStatement target (stopat answers.offsetMin request.targetUnix) set) ++
    [recoverStatement target]

/-- `restore_chain`, with the file list that is read from the first image. -/
def restoreChain (request : ChainRequest) (answers : ServerAnswers) (files : List BackupFile)
    (sets : List (List Char)) : Except String (List (List Char)) :=
  if sets = [] then .error "empty restore chain"
  else if request.newName then
    if files = [] then .error "the backup file list was empty"
    else .ok (chainStatements request answers
      (moveClause answers.dataDir answers.logDir request.targetDatabase files) sets)
  else .ok (chainStatements request answers [] sets)

/-- The file list captured at backup time (`moves_from_files`). -/
def movesFromFiles (answers : ServerAnswers) (files : List SqlBackupFile)
    (targetDatabase : List Char) : List Char :=
  moveClause answers.dataDir answers.logDir targetDatabase
    (files.map fun file => ⟨file.logical.toList, file.physical.toList, file.isLog⟩)

/-- `restore_chain_streamed`. -/
def restoreChainStreamed (request : ChainRequest) (answers : ServerAnswers)
    (files : List SqlBackupFile) (sets : List (List Char)) : Except String (List (List Char)) :=
  if sets = [] then .error "empty restore chain"
  else
    let moves :=
      if request.newName then movesFromFiles answers files request.targetDatabase else []
    .ok (chainStatements request answers moves sets)

section Statements

variable {request : ChainRequest} {answers : ServerAnswers} {sets : List (List Char)}
  {statements : List (List Char)}

theorem chainStatements_log (moves : List Char) {i : Nat} (hlog : i ≠ 0) {set : List Char}
    (hset : sets[i]? = some set) :
    (chainStatements request answers moves sets)[i]? =
      some (logStatement (doubleMarks ']' request.targetDatabase)
        (stopat answers.offsetMin request.targetUnix) set) := by
  have hlen : i < sets.length := (List.getElem?_eq_some_iff.mp hset).1
  unfold chainStatements
  dsimp only
  rw [getElem?_append_left (by rw [length_mapIdx]; exact hlen), getElem?_mapIdx,
    hset, Option.map_some, if_neg hlog]

theorem restoreChain_ok {files : List BackupFile}
    (h : restoreChain request answers files sets = .ok statements) :
    ∃ moves, statements = chainStatements request answers moves sets := by
  unfold restoreChain at h
  split at h
  · cases h
  · split at h
    · split at h
      · cases h
      · cases h
        exact ⟨_, rfl⟩
    · cases h
      exact ⟨_, rfl⟩

theorem restoreChainStreamed_ok {files : List SqlBackupFile}
    (h : restoreChainStreamed request answers files sets = .ok statements) :
    ∃ moves, statements = chainStatements request answers moves sets := by
  unfold restoreChainStreamed at h
  split at h
  · cases h
  · cases h
    exact ⟨_, rfl⟩

end Statements

/-- `DATEDIFF(MINUTE, ..)`: the minutes that begin between two times. -/
def dateDiffMinute (start stop : Int) : Int := stop / 60 - start / 60

/-- The server's offset from UTC in minutes at an instant, by its clock. -/
def serverOffset (offset : Int → Int) (now : Int) : Int :=
  dateDiffMinute now (now + offset now)

/-- A literal stands for an instant if the server shows the local time at that one only. -/
def Denotes (offset : Int → Int) (literal : List Char) (instant : Int) : Prop :=
  ∃ localTime, readIso literal = some localTime ∧
    ∀ other, Shows offset other localTime ↔ other = instant

section Literal

variable {offset : Int → Int} {target : Int}

/-- A literal is read as the local time it was written for, if the year has four digits. -/
theorem readIso_stopat (offsetMin targetUnix : Int) {localTime : Int} :
    readIso (stopat (some offsetMin) targetUnix) = some localTime ↔
      localTime = targetUnix + offsetMin * 60 ∧
        0 ≤ (dateOfLocal localTime).year ∧ (dateOfLocal localTime).year ≤ 9999 := by
  unfold stopat
  dsimp only [Option.getD_some]
  generalize targetUnix + offsetMin * 60 = written
  by_cases hyear : 0 ≤ (dateOfLocal written).year ∧ (dateOfLocal written).year ≤ 9999
  · have hcalendar : InCalendar (dateOfLocal written) := by
      unfold InCalendar minYear maxYear
      omega
    rw [if_pos hcalendar, readIso_formatIso hyear, Option.some.injEq]
    constructor
    · rintro rfl
      exact ⟨rfl, hyear⟩
    · rintro ⟨rfl, -⟩
      rfl
  · have hunread : readIso (if InCalendar (dateOfLocal written) then formatIso written else []) =
        none := by
      split
      · exact readIso_formatIso_none hyear
      · rfl
    rw [hunread]
    constructor
    · rintro ⟨⟩
    · rintro ⟨rfl, hother⟩
      exact absurd hother hyear

/-- The literal stands for the target if the offset in whole minutes is the one at the
target. -/
theorem denotes_stopat_iff (honce : ∀ other, Shows offset other (target + offset target) →
      other = target) (offsetMin : Int) :
    Denotes offset (stopat (some offsetMin) target) target ↔
      offsetMin * 60 = offset target ∧ 0 ≤ (dateOfLocal (target + offset target)).year ∧
        (dateOfLocal (target + offset target)).year ≤ 9999 := by
  constructor
  · rintro ⟨localTime, hread, honly⟩
    obtain ⟨hloc, hyear⟩ := (readIso_stopat offsetMin target).mp hread
    have hshows : target + offset target = localTime := (honly target).mpr rfl
    rw [hshows]
    exact ⟨by omega, hyear⟩
  · rintro ⟨hoff, hyear⟩
    refine ⟨target + offset target, (readIso_stopat offsetMin target).mpr ⟨by rw [hoff], hyear⟩,
      fun other => ⟨honce other, ?_⟩⟩
    rintro rfl
    rfl

theorem serverOffset_of_minutes {now minutes : Int} (h : offset now = minutes * 60) :
    serverOffset offset now = minutes := by
  rw [serverOffset, dateDiffMinute, h]
  omega

/-- In both restores every log statement carries the literal, and it stands for the target
exactly if the server's offset is now what it was at the target (and the year has four
digits). -/
theorem restore_stopat_iff {request : ChainRequest} {answers : ServerAnswers} {now : Int}
    {sets statements : List (List Char)}
    (hanswer : answers.offsetMin = some (serverOffset offset now))
    (honce : ∀ other, Shows offset other (request.targetUnix + offset request.targetUnix) →
      other = request.targetUnix)
    (hsent : (∃ files, restoreChain request answers files sets = .ok statements) ∨
      ∃ files, restoreChainStreamed request answers files sets = .ok statements) :
    (∀ (i : Nat) (set : List Char), i ≠ 0 → sets[i]? = some set →
      statements[i]? = some (logStatement (doubleMarks ']' request.targetDatabase)
        (stopat answers.offsetMin request.targetUnix) set)) ∧
    (Denotes offset (stopat answers.offsetMin request.targetUnix) request.targetUnix ↔
      serverOffset offset now * 60 = offset request.targetUnix ∧
        0 ≤ (dateOfLocal (request.targetUnix + offset request.targetUnix)).year ∧
        (dateOfLocal (request.targetUnix + offset request.targetUnix)).year ≤ 9999) := by
  constructor
  · intro i set hlog hset
    obtain ⟨moves, rfl⟩ : ∃ moves, statements = chainStatements request answers moves sets := by
      rcases hsent with ⟨files, hsent⟩ | ⟨files, hsent⟩
      · exact restoreChain_ok hsent
      · exact restoreChainStreamed_ok hsent
    exact chainStatements_log moves hlog hset
  · rw [hanswer]
    exact denotes_stopat_iff honce _

end Literal

/-- Ten in the morning UTC on the 15th of April 2026. -/
def inApril : Int := 1776247200

/-- Eight in the morning UTC on the 10th of April and on the 15th of March. -/
def aprilTarget : Int := 1775808000

def marchTarget : Int := 1773561600

/-- A restore to a time under the database's own name. -/
def sampleRequest (targetUnix : Int) : ChainRequest :=
  ⟨"Sales".toList, "Sales".toList, targetUnix, false⟩

def sampleAnswers : ServerAnswers := ⟨some 120, [], []⟩

def sampleSets : List (List Char) := ["set-1".toList, "set-2".toList]

theorem serverOffset_inApril : serverOffset summerTime.offset inApril = 120 :=
  serverOffset_of_minutes (by decide)

theorem summerTime_once {instant other : Int}
    (h : Shows summerTime.offset other (instant + summerTime.offset instant)) : other = instant := by
  have hinst : Shows summerTime.offset instant (instant + summerTime.offset instant) := rfl
  rw [summerTime, TimeZone.shows_jumping] at h hinst
  omega

theorem dateOfLocal_aprilTarget :
    dateOfLocal (aprilTarget + 7200) = ⟨2026, 4, 10, by decide, by decide, by decide, by decide⟩ :=
  Date.dayNumber_injective ((Date.dayNumber_ofDays _).trans (by decide))

theorem dateOfLocal_marchTarget :
    dateOfLocal (marchTarget + 7200) = ⟨2026, 3, 15, by decide, by decide, by decide, by decide⟩ :=
  Date.dayNumber_injective ((Date.dayNumber_ofDays _).trans (by decide))

/-- A target since the clock changed is found. -/
theorem aprilTarget_denoted :
    Denotes summerTime.offset (stopat (some 120) aprilTarget) aprilTarget := by
  have hyear : summerTime.offset aprilTarget = 7200 := by decide
  refine (@restore_stopat_iff summerTime.offset (sampleRequest aprilTarget) sampleAnswers inApril
    sampleSets _ (by rw [serverOffset_inApril]; rfl) (fun other => summerTime_once)
    (.inr ⟨[], rfl⟩)).2.mpr ?_
  rw [serverOffset_inApril, sampleRequest, hyear, dateOfLocal_aprilTarget]
  decide

/-- For a target before the clock changed the literal is an hour late. -/
theorem marchTarget_missed :
    sampleAnswers.offsetMin = some (serverOffset summerTime.offset inApril) ∧
      marchTarget ≤ inApril ∧
      (∀ other, Shows summerTime.offset other (marchTarget + summerTime.offset marchTarget) →
        other = marchTarget) ∧
      restoreChainStreamed (sampleRequest marchTarget) sampleAnswers [] sampleSets =
        .ok [fullStatement "Sales".toList [] "set-1".toList,
          logStatement "Sales".toList "2026-03-15T10:00:00".toList "set-2".toList,
          recoverStatement "Sales".toList] ∧
      Denotes summerTime.offset "2026-03-15T10:00:00".toList (marchTarget + 3600) ∧
      ¬ Denotes summerTime.offset "2026-03-15T10:00:00".toList marchTarget := by
  have hliteral : stopat (some 120) marchTarget = "2026-03-15T10:00:00".toList := by
    rw [stopat, Option.getD_some, show marchTarget + 120 * 60 = marchTarget + 7200 by decide,
      formatIso, dateOfLocal_marchTarget]
    decide
  have hread : readIso "2026-03-15T10:00:00".toList = some (marchTarget + 7200) := by
    rw [← hliteral]
    refine (readIso_stopat 120 marchTarget).mpr ⟨rfl, ?_⟩
    rw [dateOfLocal_marchTarget]
    decide
  have hstatements : restoreChainStreamed (sampleRequest marchTarget) sampleAnswers [] sampleSets =
      .ok (chainStatements (sampleRequest marchTarget) sampleAnswers [] sampleSets) := rfl
  refine ⟨by rw [serverOffset_inApril]; rfl, by decide, fun other => summerTime_once, ?_, ?_, ?_⟩
  · rw [hstatements, chainStatements, show stopat sampleAnswers.offsetMin
      (sampleRequest marchTarget).targetUnix = "2026-03-15T10:00:00".toList from hliteral]
    rfl
  · refine ⟨_, hread, fun other => ?_⟩
    rw [summerTime, TimeZone.shows_jumping]
    simp only [marchTarget, springForward]
    omega
  · rintro ⟨localTime, hother, honly⟩
    rw [hread, Option.some.injEq] at hother
    have hshows := (honly marchTarget).mpr rfl
    rw [summerTime, TimeZone.shows_jumping, ← hother] at hshows
    simp only [marchTarget, springForward] at hshows
    omega

end PbsGui.Engine
