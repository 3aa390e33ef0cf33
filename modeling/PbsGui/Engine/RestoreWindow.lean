import PbsGui.Engine.BackupMeta

/-!
# The window of a point-in-time restore

`get_sql_restore_window` reports the times between which a database can be restored to
a point in time, from when its backups started.  `run_restore_pit` goes by the times at which
they finished.
-/

namespace PbsGui.Engine

open Lib List

/-- A snapshot in the full or the log group of a database. -/
structure GroupSnapshot where
  /-- When the backup started. -/
  backupTime : Int
  size : Option UInt64 := none
  /-- What a download of the metadata gives; `none` without a metadata blob. -/
  metadata : Option (Except String SqlBackupMeta)

structure SqlFullPoint where
  backupTime : Int
  size : Option UInt64
  deriving DecidableEq

/-- The restore options for one database. -/
structure SqlRestoreWindow where
  /-- Newest first. -/
  fullPoints : List SqlFullPoint
  pitEarliest : Option Int
  pitLatest : Option Int
  logCount : UInt32
  logTotalSize : Option UInt64
  deriving DecidableEq

/-- The sum of the sizes, unless one is unknown. -/
def totalSize (logs : List GroupSnapshot) : Option UInt64 :=
  (logs.map GroupSnapshot.size).foldlM (fun sum size => size.map fun value => sum + value) 0

/-- The window, from the listings of the two groups; a log group that cannot be listed
counts as empty. -/
def getSqlRestoreWindow (fullGroup logGroup : Except String (List GroupSnapshot)) :
    Except String SqlRestoreWindow :=
  match fullGroup with
  | .error e => .error e
  | .ok listed =>
    -- newest first
    let fulls := sortByKey (fun snapshot => -snapshot.backupTime) listed
    let logs := match logGroup with
      | .ok logs => logs
      | .error _ => []
    let bounds :=
      if logs ≠ [] ∧ fulls ≠ [] then
        ((fulls.map GroupSnapshot.backupTime).min?,
          ((fulls ++ logs).map GroupSnapshot.backupTime).max?)
      else (none, none)
    .ok
      { fullPoints := fulls.map fun snapshot => ⟨snapshot.backupTime, snapshot.size⟩
        pitEarliest := bounds.1
        pitLatest := bounds.2
        logCount := UInt32.ofNat logs.length
        logTotalSize := totalSize logs }

/-- The items of one group's listing; a snapshot without metadata is skipped. -/
def readItems : List GroupSnapshot → Except String (List ChainItem)
  | [] => .ok []
  | snapshot :: rest =>
    match snapshot.metadata with
    | none => readItems rest
    | some (.error e) =>
      .error ("reading backup metadata for the snapshot at " ++ toString snapshot.backupTime ++
        ": " ++ e)
    | some (.ok metadata) =>
      match readItems rest with
      | .error e => .error e
      | .ok items => .ok (⟨snapshot.backupTime, metadata⟩ :: items)

/-- The items of several groups, given with their names. -/
def readChainItems : List (String × Except String (List GroupSnapshot)) →
    Except String (List ChainItem)
  | [] => .ok []
  | (group, .error e) :: _ => .error ("listing snapshots in " ++ group ++ ": " ++ e)
  | (_, .ok snapshots) :: rest =>
    match readItems snapshots with
    | .error e => .error e
    | .ok items =>
      match readChainItems rest with
      | .error e => .error e
      | .ok others => .ok (items ++ others)

/-- Refuse if the chain does not reach the target. -/
def ensureChainReaches (fmtUnix : Int → String) (chain : List ChainItem) (target : Int) :
    Except String Unit :=
  if chainCovers chain target then .ok ()
  else
    let reached := (chain.getLast?.map ChainItem.time).getD target
    .error ("the backup chain only reaches " ++ fmtUnix reached ++ ", short of the chosen point " ++
      fmtUnix target ++ "; the log backups needed to reach it are missing or could not be read")

/-- The checks of `run_restore_pit`, and the chain it goes on with. -/
def restorePitChain (fmtUnix : Int → String)
    (groups : List (String × Except String (List GroupSnapshot))) (target : Int) :
    Except String (List ChainItem) :=
  match readChainItems groups with
  | .error e => .error e
  | .ok items =>
    let chain := selectChain items target
    if chain = [] then .error "no full backup covers that time; pick a later restore point"
    else
      match ensureChainReaches fmtUnix chain target with
      | .error e => .error e
      | .ok () => .ok chain

section Checks

variable {fmtUnix : Int → String} {fulls logs snapshots : List GroupSnapshot} {target : Int}
  {items : List ChainItem}

/-- The full that a restore to the target starts from: the last to finish by then, and
the last one listed of several. -/
def chosenFull (items : List ChainItem) (target : Int) : Option ChainItem :=
  maxByKey ChainItem.time (fullsUpTo items target)

/-- There is a full by the target, and past it a log that finished at the target or
later, or else no log and the full finished at the target. -/
def Reachable (items : List ChainItem) (target : Int) : Prop :=
  ∃ full, chosenFull items target = some full ∧
    ((∃ log ∈ logsPast items full.last, target ≤ log.time) ∨
      logsPast items full.last = [] ∧ full.time = target)

theorem restorePitChain_ok_iff {groups : List (String × Except String (List GroupSnapshot))}
    (hitems : readChainItems groups = .ok items) :
    (∃ chain, restorePitChain fmtUnix groups target = .ok chain) ↔ Reachable items target := by
  unfold restorePitChain Reachable chosenFull selectChain
  rw [hitems]
  dsimp only
  cases hfull : maxByKey ChainItem.time (fullsUpTo items target) with
  | none => simp
  | some full =>
    have hpre : full.time ≤ target := by
      rcases @maxByKey_spec _ _ _ ChainItem.time (fullsUpTo items target) with
        ⟨hnone, -⟩ | ⟨best, hbest, hsome, -⟩
      · rw [hnone] at hfull
        cases hfull
      · rw [hsome] at hfull
        cases hfull
        exact (mem_fullsUpTo.mp hbest).2.2
    have hcov := @chainCovers_takeThrough target full
      (sortByKey ChainItem.first (logsPast items full.last))
    simp only [mem_sortByKey, sortByKey_eq_nil_iff] at hcov
    have hend : target ≤ full.time ↔ full.time = target := by omega
    simp only [Option.some.injEq, exists_eq_left', ← hend, ← hcov]
    generalize hchain : full :: takeThrough (fun log => decide (target ≤ log.time))
      (sortByKey ChainItem.first (logsPast items full.last)) = chain
    have hne : chain ≠ [] := by
      rw [← hchain]
      exact cons_ne_nil _ _
    rw [if_neg hne]
    by_cases hreach : chainCovers chain target = true
    · simp [ensureChainReaches, hreach]
    · simp [ensureChainReaches, hreach]

def GroupSnapshot.item (snapshot : GroupSnapshot) : Option ChainItem :=
  match snapshot.metadata with
  | some (.ok metadata) => some ⟨snapshot.backupTime, metadata⟩
  | some (.error _) | none => none

/-- Snapshots of one kind, all with metadata, each finished at its start or later. -/
def SnapshotsOf (isLog : Bool) (snapshots : List GroupSnapshot) : Prop :=
  ∀ snapshot ∈ snapshots, ∃ item, snapshot.item = some item ∧ item.isLog = isLog ∧
    item.snapshotTime ≤ item.time

theorem readItems_of_snapshotsOf {isLog : Bool} (h : SnapshotsOf isLog snapshots) :
    readItems snapshots = .ok (snapshots.filterMap GroupSnapshot.item) := by
  induction snapshots with
  | nil => rfl
  | cons snapshot rest ih =>
    obtain ⟨item, hitem, -⟩ := h snapshot mem_cons_self
    rw [filterMap_cons_some hitem, readItems]
    unfold GroupSnapshot.item at hitem
    split at hitem
    · rename_i metadata hmeta
      cases hitem
      rw [hmeta, ih (forall_mem_cons.mp h).2]
    · cases hitem
    · cases hitem

def itemsOf (fulls logs : List GroupSnapshot) : List ChainItem :=
  fulls.filterMap GroupSnapshot.item ++ logs.filterMap GroupSnapshot.item

theorem readChainItems_eq {fullGroup logGroup : String} (hfulls : SnapshotsOf false fulls)
    (hlogs : SnapshotsOf true logs) :
    readChainItems [(fullGroup, .ok fulls), (logGroup, .ok logs)] = .ok (itemsOf fulls logs) := by
  simp only [readChainItems, readItems_of_snapshotsOf hfulls, readItems_of_snapshotsOf hlogs,
    append_nil, itemsOf]

theorem start_le_finish {item : ChainItem} (hfulls : SnapshotsOf false fulls)
    (hlogs : SnapshotsOf true logs) (hitem : item ∈ itemsOf fulls logs) :
    item.snapshotTime ≤ item.time := by
  have hread : ∀ {isLog : Bool} {group : List GroupSnapshot}, SnapshotsOf isLog group →
      item ∈ group.filterMap GroupSnapshot.item → item.snapshotTime ≤ item.time := by
    intro isLog group hgroup hmem
    obtain ⟨snapshot, hsnap, hread⟩ := mem_filterMap.mp hmem
    obtain ⟨other, hother, -, hle⟩ := hgroup snapshot hsnap
    rw [hread] at hother
    cases hother
    exact hle
  rcases mem_append.mp hitem with hfull | hlog
  · exact hread hfulls hfull
  · exact hread hlogs hlog

end Checks

def SqlRestoreWindow.Contains (window : SqlRestoreWindow) (target : Int) : Prop :=
  ∃ earliest latest, window.pitEarliest = some earliest ∧ window.pitLatest = some latest ∧
    earliest ≤ target ∧ target ≤ latest

theorem exists_latest {fulls logs : List GroupSnapshot} (hfulls : SnapshotsOf false fulls)
    (hlogs : SnapshotsOf true logs) {window : SqlRestoreWindow}
    (hwindow : getSqlRestoreWindow (.ok fulls) (.ok logs) = .ok window) {latest : Int}
    (hlate : window.pitLatest = some latest) :
    ∃ item ∈ itemsOf fulls logs, item.snapshotTime = latest := by
  have hitem : ∀ {isLog : Bool} {group : List GroupSnapshot} {snapshot : GroupSnapshot},
      SnapshotsOf isLog group → snapshot ∈ group →
      ∃ item ∈ group.filterMap GroupSnapshot.item, item.snapshotTime = snapshot.backupTime := by
    intro isLog group snapshot hgroup hmem
    obtain ⟨item, hread, -⟩ := hgroup snapshot hmem
    refine ⟨item, mem_filterMap.mpr ⟨snapshot, hmem, hread⟩, ?_⟩
    unfold GroupSnapshot.item at hread
    split at hread <;> cases hread
    rfl
  simp only [getSqlRestoreWindow, Except.ok.injEq] at hwindow
  rw [← hwindow] at hlate
  dsimp only at hlate
  split at hlate
  · obtain ⟨snapshot, hmem, rfl⟩ := mem_map.mp (max?_mem hlate)
    rcases mem_append.mp hmem with hfull | hlog
    · obtain ⟨item, hread, hstart⟩ := hitem hfulls (mem_sortByKey.mp hfull)
      exact ⟨item, mem_append_left _ hread, hstart⟩
    · obtain ⟨item, hread, hstart⟩ := hitem hlogs hlog
      exact ⟨item, mem_append_right _ hread, hstart⟩
  · cases hlate

/-- A target of the reported window is accepted exactly if some full finished by then
and, past the one the restore starts from, a log finished at the target or later (or
there is no log and the full finished at the target).  If the snapshot that started
last is a log past that full, a full that finished by the target is enough. -/
theorem windowTarget_accepted_iff {fmtUnix : Int → String} {fullGroup logGroup : String}
    {fulls logs : List GroupSnapshot} (hfulls : SnapshotsOf false fulls)
    (hlogs : SnapshotsOf true logs) {window : SqlRestoreWindow}
    (hwindow : getSqlRestoreWindow (.ok fulls) (.ok logs) = .ok window) {target : Int}
    (htarget : window.Contains target) :
    ((∃ chain, restorePitChain fmtUnix [(fullGroup, .ok fulls), (logGroup, .ok logs)] target =
        .ok chain) ↔ Reachable (itemsOf fulls logs) target) ∧
    ((∀ full, chosenFull (itemsOf fulls logs) target = some full →
        ∃ log ∈ logsPast (itemsOf fulls logs) full.last,
          ∀ other ∈ itemsOf fulls logs, other.snapshotTime ≤ log.snapshotTime) →
      ((∃ chain, restorePitChain fmtUnix [(fullGroup, .ok fulls), (logGroup, .ok logs)] target =
          .ok chain) ↔
        ∃ full ∈ itemsOf fulls logs, full.isLog = false ∧ full.time ≤ target)) := by
  have hiff := @restorePitChain_ok_iff fmtUnix target _ _
    (@readChainItems_eq fulls logs fullGroup logGroup hfulls hlogs)
  refine ⟨hiff, fun hnewest => ?_⟩
  rw [hiff]
  rcases @maxByKey_spec _ _ _ ChainItem.time (fullsUpTo (itemsOf fulls logs) target) with
    ⟨hnone, hempty⟩ | ⟨full, hfull, hsome, -⟩
  · refine iff_of_false ?_ ?_
    · rintro ⟨full, hchosen, -⟩
      rw [chosenFull, hnone] at hchosen
      cases hchosen
    · rintro ⟨full, hmem, hkind, hle⟩
      have := mem_fullsUpTo.mpr ⟨hmem, hkind, hle⟩
      rw [hempty] at this
      cases this
  · refine iff_of_true ?_ ⟨full, mem_fullsUpTo.mp hfull⟩
    obtain ⟨log, hlog, hlast⟩ := hnewest full hsome
    obtain ⟨_, latest, -, hlatest, -, hle⟩ := htarget
    obtain ⟨item, hitem, rfl⟩ := exists_latest hfulls hlogs hwindow hlatest
    refine ⟨full, hsome, .inl ⟨log, hlog, ?_⟩⟩
    calc target ≤ item.snapshotTime := hle
      _ ≤ log.snapshotTime := hlast item hitem
      _ ≤ log.time := start_le_finish hfulls hlogs (mem_logsPast.mp hlog).1

def sampleMeta (kind : String) (finish : Int) (first last : String) : SqlBackupMeta :=
  { kind := kind, backupTime := finish, firstLsn := first, lastLsn := last,
    databaseBackupLsn := "0", files := [] }

def sampleFulls : List GroupSnapshot :=
  [{ backupTime := 100, metadata := some (.ok (sampleMeta "full" 160 "10" "20")) }]

def sampleLogs : List GroupSnapshot :=
  [{ backupTime := 200, metadata := some (.ok (sampleMeta "log" 205 "20" "30")) }]

theorem sampleFulls_snapshotsOf : SnapshotsOf false sampleFulls := by
  intro snapshot hsnap
  rw [mem_singleton.mp hsnap]
  exact ⟨_, rfl, rfl, by decide⟩

theorem sampleLogs_snapshotsOf : SnapshotsOf true sampleLogs := by
  intro snapshot hsnap
  rw [mem_singleton.mp hsnap]
  exact ⟨_, rfl, rfl, by decide⟩

def sampleWindow : SqlRestoreWindow :=
  { fullPoints := [⟨100, none⟩], pitEarliest := some 100, pitLatest := some 200, logCount := 1,
    logTotalSize := none }

theorem sampleWindow_reported : getSqlRestoreWindow (.ok sampleFulls) (.ok sampleLogs) =
    .ok sampleWindow := rfl

/-- The earliest time of the window is refused: the full had not finished then. -/
theorem earliestTarget_refused :
    SnapshotsOf false sampleFulls ∧ SnapshotsOf true sampleLogs ∧
      getSqlRestoreWindow (.ok sampleFulls) (.ok sampleLogs) = .ok sampleWindow ∧
      sampleWindow.Contains 100 ∧
      restorePitChain toString [("db", .ok sampleFulls), ("db-log", .ok sampleLogs)] 100 =
        .error "no full backup covers that time; pick a later restore point" :=
  ⟨sampleFulls_snapshotsOf, sampleLogs_snapshotsOf, rfl, ⟨100, 200, rfl, rfl, by decide, by decide⟩, rfl⟩

/-- A time after the full has finished is accepted. -/
theorem laterTarget_accepted : ∃ chain,
    restorePitChain toString [("db", .ok sampleFulls), ("db-log", .ok sampleLogs)] 180 =
      .ok chain := by
  refine ((windowTarget_accepted_iff sampleFulls_snapshotsOf sampleLogs_snapshotsOf
    sampleWindow_reported ⟨100, 200, rfl, rfl, by decide, by decide⟩).1).mpr ?_
  exact ⟨⟨100, sampleMeta "full" 160 "10" "20"⟩, by decide,
    .inl ⟨⟨200, sampleMeta "log" 205 "20" "30"⟩, by decide, by decide⟩⟩

end PbsGui.Engine
