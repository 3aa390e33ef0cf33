import Mathlib.Algebra.Group.Nat.Defs
import PbsGui.Lib.Selection

/-!
# SQL backup metadata and the restore chain

Each SQL snapshot carries a small blob with the backup's type and its range of log
sequence numbers (LSNs).  `selectChain` picks from those the full backup and the
log backups that carry a database forward to a target time.
-/

namespace PbsGui.Engine

open Lib List

/-- One logical file of a backed-up database. -/
structure SqlBackupFile where
  /-- Logical file name. -/
  logical : String
  /-- Original physical path. -/
  physical : String
  /-- Whether this is a log file. -/
  isLog : Bool
  deriving DecidableEq

/-- Metadata for one SQL backup (full or log). -/
structure SqlBackupMeta where
  /-- "full" or "log". -/
  kind : String
  /-- Backup finish time, unix seconds. -/
  backupTime : Int
  /-- First log sequence number, a decimal string. -/
  firstLsn : String
  /-- Last log sequence number, a decimal string. -/
  lastLsn : String
  /-- LSN of the full this backup chains from. -/
  databaseBackupLsn : String
  /-- The database's logical files at backup time. -/
  files : List SqlBackupFile
  deriving DecidableEq

/-- Whether the kind is "log" in any letter case (`eq_ignore_ascii_case`). -/
def SqlBackupMeta.isLog (metadata : SqlBackupMeta) : Bool :=
  metadata.kind.toList.map Char.toLower == "log".toList

/-- One candidate snapshot: its PBS address time and its metadata. -/
structure ChainItem where
  /-- The snapshot's PBS backup time. -/
  snapshotTime : Int
  /-- The metadata stored in it. -/
  metadata : SqlBackupMeta
  deriving DecidableEq

/-- The Unicode `White_Space` characters, which `str::trim` removes. -/
def isWhiteSpace (c : Char) : Bool :=
  (0x09 ≤ c.toNat && c.toNat ≤ 0x0d) || (0x2000 ≤ c.toNat && c.toNat ≤ 0x200a) ||
    c.toNat ∈ [0x20, 0x85, 0xa0, 0x1680, 0x2028, 0x2029, 0x202f, 0x205f, 0x3000]

/-- `str::trim`. -/
def trim (text : List Char) : List Char :=
  ((text.dropWhile isWhiteSpace).reverse.dropWhile isWhiteSpace).reverse

/-- One digit read by `u128::from_str`, which fails on overflow. -/
def pushDigit (value : Nat) (c : Char) : Option Nat :=
  if c.isDigit && value * 10 + (c.toNat - '0'.toNat) < 2 ^ 128 then
    some (value * 10 + (c.toNat - '0'.toNat))
  else none

/-- `u128::from_str`: an optional plus sign and at least one digit. -/
def parseU128 (text : List Char) : Option Nat :=
  match text with
  | [] | ['+'] => none
  | '+' :: digits => digits.foldlM pushDigit 0
  | digits => digits.foldlM pushDigit 0

/-- Parse a decimal LSN to a comparable integer (0 if it does not parse). -/
def parseLsn (s : String) : Nat :=
  (parseU128 (trim s.toList)).getD 0

namespace ChainItem

def isLog (item : ChainItem) : Bool :=
  item.metadata.isLog

def time (item : ChainItem) : Int :=
  item.metadata.backupTime

def first (item : ChainItem) : Nat :=
  parseLsn item.metadata.firstLsn

def last (item : ChainItem) : Nat :=
  parseLsn item.metadata.lastLsn

end ChainItem

/-! ### The chain -/

/-- The full backups at or before the target, in listing order. -/
def fullsUpTo (items : List ChainItem) (target : Int) : List ChainItem :=
  items.filter fun item => !item.isLog && decide (item.time ≤ target)

/-- The log backups that end past an LSN, in listing order. -/
def logsPast (items : List ChainItem) (baseLsn : Nat) : List ChainItem :=
  items.filter fun item => item.isLog && decide (baseLsn < item.last)

/-- The restore chain to a target: the latest full at or before it, then the log
backups past the full's end in the order of their first LSN, up to the first one
that reaches the target.  Empty if no full covers the target. -/
def selectChain (items : List ChainItem) (target : Int) : List ChainItem :=
  match maxByKey ChainItem.time (fullsUpTo items target) with
  | none => []
  | some full =>
    let logs := sortByKey ChainItem.first (logsPast items full.last)
    -- the loop pushes a log and breaks if it reached the target
    full :: takeThrough (fun log => decide (target ≤ log.time)) logs

/-- Whether a chain recovers to a target: its newest backup finished at or after it. -/
def chainCovers (chain : List ChainItem) (target : Int) : Bool :=
  chain.getLast?.any fun last => decide (target ≤ last.time)

variable {items : List ChainItem} {target : Int} {item full : ChainItem}

theorem mem_fullsUpTo :
    item ∈ fullsUpTo items target ↔ item ∈ items ∧ item.isLog = false ∧ item.time ≤ target := by
  simp [fullsUpTo]

theorem mem_logsPast {baseLsn : Nat} :
    item ∈ logsPast items baseLsn ↔ item ∈ items ∧ item.isLog = true ∧ baseLsn < item.last := by
  simp [logsPast]

theorem fullsUpTo_eq_nil (hlogs : ∀ item ∈ items, item.isLog = true) :
    fullsUpTo items target = [] := by
  simpa [fullsUpTo] using fun item hitem hkind => absurd (hlogs item hitem) (by simp [hkind])

theorem logsPast_eq_nil {baseLsn : Nat} (hfulls : ∀ item ∈ items, item.isLog = false) :
    logsPast items baseLsn = [] := by
  simpa [logsPast] using fun item hitem hkind => absurd (hfulls item hitem) (by simp [hkind])

theorem selectChain_eq_nil_iff :
    selectChain items target = [] ↔ ∀ item ∈ items, item.isLog = false → target < item.time := by
  have hfulls : fullsUpTo items target = [] ↔
      ∀ item ∈ items, item.isLog = false → target < item.time := by
    simp [fullsUpTo]
  rcases @maxByKey_spec _ _ _ ChainItem.time (fullsUpTo items target) with
    ⟨hnone, hempty⟩ | ⟨full, hfull, hsome, -⟩
  · rw [← hfulls, selectChain, hnone]
    exact ⟨fun _ => hempty, fun _ => rfl⟩
  · rw [← hfulls, selectChain, hsome]
    constructor
    · intro h
      cases h
    · intro h
      rw [h] at hfull
      exact absurd hfull not_mem_nil

/-- The full a target's chain starts from is a latest one at or before it. -/
structure NewestFull (items : List ChainItem) (target : Int) (full : ChainItem) : Prop where
  mem : full ∈ items
  isFull : full.isLog = false
  before : full.time ≤ target
  newest : ∀ other ∈ items, other.isLog = false → other.time ≤ target → other.time ≤ full.time

theorem selectChain_cases (items : List ChainItem) (target : Int) :
    selectChain items target = [] ∨ ∃ full, NewestFull items target full ∧
      selectChain items target = full :: takeThrough (fun log => decide (target ≤ log.time))
        (sortByKey ChainItem.first (logsPast items full.last)) := by
  rcases @maxByKey_spec _ _ _ ChainItem.time (fullsUpTo items target) with
    ⟨hnone, -⟩ | ⟨full, hfull, hsome, hmax⟩
  · exact .inl (by rw [selectChain, hnone])
  · obtain ⟨hmem, hkind, hpre⟩ := mem_fullsUpTo.mp hfull
    refine .inr ⟨full, ⟨hmem, hkind, hpre, ?_⟩, by rw [selectChain, hsome]⟩
    intro other hother hotherKind hotherBefore
    exact hmax other (mem_fullsUpTo.mpr ⟨hother, hotherKind, hotherBefore⟩)

theorem selectChain_full_first (h : selectChain items target ≠ []) :
    ∃ full logs, selectChain items target = full :: logs ∧ full.isLog = false ∧
      ∀ log ∈ logs, log.isLog = true := by
  rcases selectChain_cases items target with hnil | ⟨full, hfull, hchain⟩
  · exact absurd hnil h
  · refine ⟨full, _, hchain, hfull.isFull, fun log hlog => ?_⟩
    exact (mem_logsPast.mp (mem_sortByKey.mp (takeThrough_isPrefix.subset hlog))).2.1

theorem selectChain_of_last {fulls logs : List ChainItem}
    (hfull : NewestFull (fulls ++ [full] ++ logs) target full)
    (hlogs : ∀ item ∈ logs, item.isLog = true) :
    selectChain (fulls ++ [full] ++ logs) target =
      full :: takeThrough (fun log => decide (target ≤ log.time))
        (sortByKey ChainItem.first (logsPast (fulls ++ [full] ++ logs) full.last)) := by
  have hfulls : fullsUpTo (fulls ++ [full] ++ logs) target = fullsUpTo fulls target ++ [full] := by
    have hlast : fullsUpTo [full] target = [full] := by
      simp [fullsUpTo, hfull.isFull, hfull.before]
    calc fullsUpTo (fulls ++ [full] ++ logs) target
        = fullsUpTo fulls target ++ fullsUpTo [full] target ++ fullsUpTo logs target := by
          simp only [fullsUpTo, filter_append]
      _ = fullsUpTo fulls target ++ [full] := by
          rw [hlast, fullsUpTo_eq_nil hlogs, append_nil]
  have hmax : maxByKey ChainItem.time (fullsUpTo (fulls ++ [full] ++ logs) target) = some full := by
    rw [hfulls]
    refine maxByKey_of_last fun other hother => ?_
    obtain ⟨hmem, hkind, hpre⟩ := mem_fullsUpTo.mp hother
    exact hfull.newest other (by simp [hmem]) hkind hpre
  rw [selectChain, hmax]

/-- A chain reaches the target if one of the logs after the full does, or without logs
the full itself. -/
theorem chainCovers_takeThrough (full : ChainItem) (logs : List ChainItem) :
    chainCovers (full :: takeThrough (fun log => decide (target ≤ log.time)) logs) target = true ↔
      (∃ log ∈ logs, target ≤ log.time) ∨ logs = [] ∧ target ≤ full.time := by
  induction logs generalizing full with
  | nil => simp [takeThrough, chainCovers]
  | cons log rest ih =>
    rw [takeThrough]
    by_cases hreach : target ≤ log.time
    · simp [hreach, chainCovers]
    · have hnext := ih log
      simp only [hreach, and_false, or_false] at hnext
      simp only [hreach, decide_false, Bool.false_eq_true, if_false, mem_cons,
        exists_eq_or_imp, false_or, reduceCtorEq, false_and, or_false]
      rw [← hnext]
      simp only [chainCovers, getLast?_cons_cons]

end PbsGui.Engine
