import Mathlib.Data.Char
import PbsGui.Engine.RestoreChain
import PbsGui.Lib.DecimalText

/-!
# The files of an exported chain

`export_sql_chain` (`handler.rs`) writes each backup of a chain to a file of its own, with
the place in the chain in front of the kind and the time, so that the names sort to the
order in which the files are restored.  The place has two digits, and three from the
hundredth file on.
-/

namespace PbsGui.Engine

open Lib List

/-- Keep only filename-safe characters, so that a database name is a valid file stem. -/
def sanitizeFilename (value : List Char) : List Char :=
  if sanitizeFile value = [] then "database".toList else sanitizeFile value

/-- A UTC timestamp for a backup file name (`%Y%m%dT%H%M%SZ`). -/
def fileStamp (unix : Int) : List Char :=
  if InCalendar (dateOfLocal unix) then
    let date := dateOfLocal unix
    let second := (unix % 86400).toNat
    yearText date.year ++ padded 2 date.month ++ padded 2 date.day ++ 'T' ::
      (padded 2 (second / 3600) ++ padded 2 (second / 60 % 60) ++ padded 2 (second % 60) ++ ['Z'])
  else signedText unix

/-- The name of the file at a place in the chain. -/
def exportName (database : List Char) (i : Nat) (item : ChainItem) : List Char :=
  sanitizeFilename database ++ '-' :: (zeroFilled 2 (i + 1) ++ '-' ::
    ((if item.isLog then "LOG" else "FULL").toList ++ '-' :: (fileStamp item.snapshotTime ++ '.' ::
      (if item.isLog then "trn" else "bak").toList)))

/-- The files of a chain, and which of them are logs. -/
def exportFiles (database : List Char) (chain : List ChainItem) : List (List Char × Bool) :=
  chain.mapIdx fun i item => (exportName database i item, item.isLog)

/-- The names of the files, in the order of the chain. -/
def exportNames (database : List Char) (chain : List ChainItem) : List (List Char) :=
  (exportFiles database chain).map Prod.fst

section Names

variable {database : List Char} {chain : List ChainItem}

theorem exportNames_eq : exportNames database chain = chain.mapIdx (exportName database) := by
  refine ext_getElem (by simp [exportNames, exportFiles]) fun i _ _ => ?_
  simp [exportNames, exportFiles]

theorem exportName_inj {i j : Nat} {item other : ChainItem}
    (h : exportName database i item = exportName database j other) : i = j := by
  have hplace := (cons.inj (append_cancel_left h)).2
  exact Nat.succ.inj (zeroFilled_append_inj (by decide) hplace)

theorem zeroFilled_two : ∀ place < 100, zeroFilled 2 place = padded 2 place := by decide

theorem exportName_lt {i j : Nat} (hij : i < j) (hj : j < 99) (item other : ChainItem) :
    exportName database i item < exportName database j other := by
  refine List.Lex.append_left (· < ·) (List.Lex.cons ?_) _
  rw [zeroFilled_two (i + 1) (by omega), zeroFilled_two (j + 1) (by omega)]
  refine append_lt_append (padded_lt_padded (by omega) (by omega)) ?_ _ _
  rw [length_padded, length_padded]

theorem hundredth_lt_eleventh (item other : ChainItem) :
    exportName database 99 item < exportName database 10 other := by
  have hdigits : zeroFilled 2 100 = ['1', '0', '0'] ∧ zeroFilled 2 11 = ['1', '1'] := by decide
  refine List.Lex.append_left (· < ·) (List.Lex.cons ?_) _
  rw [hdigits.1, hdigits.2]
  exact List.Lex.cons (List.Lex.rel (by decide))

theorem exportNames_pairwise (hlen : chain.length ≤ 99) :
    (exportNames database chain).Pairwise (· ≤ ·) := by
  rw [exportNames_eq, pairwise_iff_getElem]
  intro i j hi hj hij
  rw [length_mapIdx] at hj
  rw [getElem_mapIdx, getElem_mapIdx]
  exact le_of_lt (exportName_lt hij (by omega) _ _)

theorem not_exportNames_pairwise (hlen : 99 < chain.length) :
    ¬ (exportNames database chain).Pairwise (· ≤ ·) := by
  rw [exportNames_eq, pairwise_iff_getElem]
  intro h
  have hle := h 10 99 (by rw [length_mapIdx]; omega) (by rw [length_mapIdx]; omega)
    (by decide)
  rw [getElem_mapIdx, getElem_mapIdx] at hle
  exact absurd hle (not_le_of_gt (hundredth_lt_eleventh _ _))

def sortedNames (names : List (List Char)) : List (List Char) :=
  names.mergeSort fun left right => decide (left ≤ right)

theorem sortedNames_eq_iff {names : List (List Char)} :
    sortedNames names = names ↔ names.Pairwise (· ≤ ·) := by
  constructor
  · intro h
    rw [← h]
    exact pairwise_mergeSort' (· ≤ ·) names
  · exact mergeSort_eq_self (· ≤ ·)

end Names

/-- The names are pairwise different, and sort to the order of the chain as long as the
places have two digits. -/
theorem exportNames_in_order_iff (database : List Char) (chain : List ChainItem) :
    (exportNames database chain).Nodup ∧
      (sortedNames (exportNames database chain) = exportNames database chain ↔
        chain.length ≤ 99) := by
  constructor
  · rw [exportNames_eq, nodup_iff_injective_getElem]
    intro i j h
    simp only [getElem_mapIdx] at h
    exact Fin.ext (exportName_inj h)
  · rw [sortedNames_eq_iff]
    exact ⟨fun h => Nat.le_of_not_lt fun hlong => not_exportNames_pairwise hlong h,
      exportNames_pairwise⟩

def hourlyFull : ChainItem := ⟨0, ⟨"full", 0, "0", "0", "0", []⟩⟩

def hourlyLog (hour : Nat) : ChainItem :=
  ⟨3600 * (hour + 1), ⟨"log", 3600 * (hour + 1), String.ofList (Nat.toDigits 10 hour),
    String.ofList (Nat.toDigits 10 (hour + 1)), "0", []⟩⟩

def hourlyItems : List ChainItem := hourlyFull :: (List.range 99).map hourlyLog

theorem parseLsn_digits {lsn : Nat} (h : lsn < 100) :
    parseLsn (String.ofList (Nat.toDigits 10 lsn)) = lsn := by
  have hparse : ∀ value < 100, parseU128 (trim (Nat.toDigits 10 value)) = some value := by decide
  rw [parseLsn, String.toList_ofList, hparse lsn h]
  rfl

theorem hourlyLog_isLog (hour : Nat) : (hourlyLog hour).isLog = true := by
  have hkind : (hourlyLog hour).metadata.kind = "log" := rfl
  rw [ChainItem.isLog, SqlBackupMeta.isLog, hkind]
  decide

theorem selectChain_hourlyItems : selectChain hourlyItems (3600 * 99) = hourlyItems := by
  have hlogs : ∀ item ∈ (range 99).map hourlyLog, item.isLog = true := by
    intro item hitem
    obtain ⟨hour, -, rfl⟩ := mem_map.mp hitem
    exact hourlyLog_isLog hour
  have hfull : NewestFull ([] ++ [hourlyFull] ++ (range 99).map hourlyLog) (3600 * 99)
      hourlyFull := by
    refine ⟨mem_cons_self, by decide, by decide, fun other hother hkind _ => ?_⟩
    rcases mem_cons.mp hother with rfl | hlog
    · exact Int.le_refl _
    · exact absurd (hlogs other hlog) (by simp [hkind])
  have hpast : logsPast hourlyItems hourlyFull.last = (range 99).map hourlyLog := by
    have hrest : logsPast hourlyItems hourlyFull.last =
        logsPast ((range 99).map hourlyLog) hourlyFull.last := rfl
    rw [hrest, logsPast, filter_eq_self]
    intro item hitem
    obtain ⟨hour, hhour, rfl⟩ := mem_map.mp hitem
    have hlast : (hourlyLog hour).last = hour + 1 :=
      parseLsn_digits (by have := mem_range.mp hhour; omega)
    have hbase : hourlyFull.last = 0 := by decide
    simp [hourlyLog_isLog, hlast, hbase]
  have hsort : ((range 99).map hourlyLog).Pairwise
      fun left right => left.first < right.first := by
    rw [pairwise_map]
    refine pairwise_lt_range.imp_of_mem fun {left right} hleft hright hlt => ?_
    have hfirst : ∀ hour ∈ range 99, (hourlyLog hour).first = hour := fun hour hhour =>
      parseLsn_digits (by have := mem_range.mp hhour; omega)
    rw [hfirst left hleft, hfirst right hright]
    exact hlt
  have hchain := selectChain_of_last hfull hlogs
  rw [nil_append, singleton_append, ← hourlyItems, hpast,
    sortByKey_eq_of_perm (List.Perm.refl _) hsort] at hchain
  rw [hchain, hourlyItems, range_succ, map_append]
  refine congrArg (hourlyFull :: ·) (takeThrough_concat (fun log hlog => ?_) _)
  obtain ⟨hour, hhour, rfl⟩ := mem_map.mp hlog
  have hbelow := mem_range.mp hhour
  have htime : (hourlyLog hour).time = 3600 * (hour + 1) := rfl
  rw [htime, decide_eq_false_iff_not]
  omega

/-- The chain has a hundred files, whose names do not sort to its order. -/
theorem hourlyItems_out_of_order :
    selectChain hourlyItems (3600 * 99) = hourlyItems ∧ hourlyItems.length = 100 ∧
      sortedNames (exportNames "sales".toList hourlyItems) ≠
        exportNames "sales".toList hourlyItems := by
  have hlength : hourlyItems.length = 100 := by
    rw [hourlyItems, length_cons, length_map, length_range]
  refine ⟨selectChain_hourlyItems, hlength, fun h => ?_⟩
  exact not_exportNames_pairwise (by omega) (sortedNames_eq_iff.mp h)

end PbsGui.Engine
