import PbsGui.Lib.Transition
import PbsGui.Engine.BackupMeta

/-!
# Restore chains over a database's history

A database is backed up and, now and then, restored over its own name to an earlier point,
which rewinds the log sequence number: the backups finished after that point are left on an
abandoned branch.  `selectChain` orders the logs of all branches by LSN alone.  The main result
says for which histories and targets its chain stays on the live branch.
-/

namespace PbsGui.Engine

open Lib List

/-! ### Histories -/

/-- A database and its backups. -/
structure DbHistory where
  /-- Where the database's log begins. -/
  origin : Nat
  /-- The current log sequence number. -/
  lsn : Nat
  /-- The current time. -/
  now : Int
  /-- All snapshots on PBS. -/
  snapshots : List ChainItem
  /-- The backups of the live branch, oldest first. -/
  live : List ChainItem
  /-- The branches that restores ended, as they were then. -/
  ended : List (List ChainItem)
  /-- When the last restore ran. -/
  lastRestore : Option Int

/-- Where the next log backup of a branch starts: at the end of the last one. -/
def logEnd (origin : Nat) (branch : List ChainItem) : Nat :=
  ((branch.filter ChainItem.isLog).map ChainItem.last).getLastD origin

namespace DbHistory

def advance (history : DbHistory) (lsn : Nat) (now : Int) : DbHistory :=
  { history with lsn := lsn, now := now }

def record (history : DbHistory) (item : ChainItem) : DbHistory :=
  { history with
    snapshots := history.snapshots ++ [item]
    live := history.live ++ [item] }

/-- Restore the database: what is kept becomes the live branch. -/
def rewind (history : DbHistory) (kept : List ChainItem) (lsn : Nat) : DbHistory :=
  { history with
    lsn := lsn
    live := kept
    ended := history.live :: history.ended
    lastRestore := some history.now }

def create (lsn : Nat) (now : Int) : DbHistory :=
  ⟨lsn, lsn, now, [], [], [], none⟩

end DbHistory

/-- What happens to a database. -/
inductive HistoryStep : DbHistory → DbHistory → Prop
  /-- Time passes and transactions are logged. -/
  | work {history lsn now} (hlsn : history.lsn ≤ lsn) (hnow : history.now ≤ now) :
      HistoryStep history (history.advance lsn now)
  /-- A full backup finishes. -/
  | full {history item} (hkind : item.isLog = false) (htime : item.time = history.now)
      (hlast : item.last = history.lsn) (hrange : item.first ≤ item.last) :
      HistoryStep history (history.record item)
  /-- A log backup finishes: all that was logged since the last one of its branch. -/
  | log {history item} (hkind : item.isLog = true) (htime : item.time = history.now)
      (hfirst : item.first = logEnd history.origin history.live) (hlast : item.last = history.lsn) :
      HistoryStep history (history.record item)
  /-- The database is restored to a point of its branch, or of an ended one. -/
  | restore {history kept abandoned} {point : Int} {lsn : Nat}
      (hbranch : kept ++ abandoned ∈ history.live :: history.ended)
      (hpoint : point ≤ history.now) (hkept : ∀ item ∈ kept, item.time ≤ point ∧ item.last ≤ lsn)
      (habandoned : ∀ item ∈ abandoned, point < item.time) (horigin : history.origin ≤ lsn) :
      HistoryStep history (history.rewind kept lsn)

/-- The histories that a new database can come to. -/
def HistoryReaches : DbHistory → DbHistory → Prop :=
  Relation.ReflTransGen HistoryStep

/-- Each log of a branch starts at the end of the one before. -/
inductive Branch (origin : Nat) : List ChainItem → Prop
  | nil : Branch origin []
  | full {branch item} : Branch origin branch → item.isLog = false →
      Branch origin (branch ++ [item])
  | log {branch item} : Branch origin branch → item.isLog = true →
      item.first = logEnd origin branch → item.first ≤ item.last →
      Branch origin (branch ++ [item])

section Branches

variable {origin : Nat} {branch kept abandoned : List ChainItem} {item : ChainItem}

theorem logEnd_cases (origin : Nat) (branch : List ChainItem) :
    logEnd origin branch = origin ∨
      ∃ log ∈ branch, log.isLog = true ∧ log.last = logEnd origin branch := by
  induction branch using reverseRecOn with
  | nil => exact .inl rfl
  | append_singleton branch item ih =>
    cases hkind : item.isLog with
    | true => exact .inr ⟨item, by simp, hkind, by simp [logEnd, filter_append, hkind]⟩
    | false =>
      rw [logEnd, filter_append, filter_singleton, hkind, Bool.cond_false, append_nil, ← logEnd]
      rcases ih with horigin | ⟨log, hlog, hisLog, hend⟩
      · exact .inl horigin
      · exact .inr ⟨log, mem_append_left _ hlog, hisLog, hend⟩

theorem Branch.of_append (h : Branch origin (kept ++ abandoned)) : Branch origin kept := by
  induction abandoned using reverseRecOn with
  | nil => simpa using h
  | append_singleton abandoned item ih =>
    rw [← append_assoc] at h
    generalize hlist : kept ++ abandoned ++ [item] = list at h
    cases h with
    | nil => simp at hlist
    | full hbranch _ | log hbranch _ _ _ =>
      obtain ⟨rfl, -⟩ := append_inj' hlist rfl
      exact ih hbranch

/-- Every log of a branch covers a range, and one that starts past an LSN of the
origin or later has another before it in LSN order, which ends where it starts. -/
theorem Branch.log_before (h : Branch origin branch) {base : Nat} (hbase : origin ≤ base) :
    ∀ log ∈ branch, log.isLog = true → log.first ≤ log.last ∧ (base < log.first →
      ∃ earlier ∈ branch, earlier.isLog = true ∧ earlier.last = log.first ∧
        earlier.first < log.first) := by
  have hgrow : ∀ {branch : List ChainItem} {log : ChainItem} (item : ChainItem),
      (∃ earlier ∈ branch, earlier.isLog = true ∧ earlier.last = log.first ∧
        earlier.first < log.first) →
      ∃ earlier ∈ branch ++ [item], earlier.isLog = true ∧ earlier.last = log.first ∧
        earlier.first < log.first :=
    fun _ ⟨earlier, hmem, hearlier⟩ => ⟨earlier, mem_append_left _ hmem, hearlier⟩
  induction h with
  | nil => exact fun log hlog => absurd hlog (by simp)
  | @full branch item _ hkind ih =>
    intro log hlog hisLog
    rcases mem_append.mp hlog with hold | hnew
    · exact ⟨(ih log hold hisLog).1, fun hpast => hgrow item ((ih log hold hisLog).2 hpast)⟩
    · rw [mem_singleton.mp hnew, hkind] at hisLog
      exact absurd hisLog (by simp)
  | @log branch item _ hkind hfirst hrange ih =>
    intro log hlog hisLog
    rcases mem_append.mp hlog with hold | hnew
    · exact ⟨(ih log hold hisLog).1, fun hpast => hgrow item ((ih log hold hisLog).2 hpast)⟩
    · rw [mem_singleton.mp hnew]
      refine ⟨hrange, fun hpast => ?_⟩
      rcases logEnd_cases origin branch with horigin | ⟨previous, hprev, hprevLog, hend⟩
      · omega
      · obtain ⟨hprevRange, hprevBefore⟩ := ih previous hprev hprevLog
        rw [← hfirst] at hend
        by_cases hempty : previous.first < item.first
        · exact hgrow item ⟨previous, hprev, hprevLog, hend, hempty⟩
        · -- the previous log is empty: what comes before it ends there as well
          have hsame : previous.first = item.first := by omega
          rw [hsame] at hprevBefore
          exact hgrow item (hprevBefore hpast)

end Branches

/-- What holds of a database throughout its history. -/
structure HistoryInv (history : DbHistory) : Prop where
  /-- The log never falls behind its beginning. -/
  origin_le : history.origin ≤ history.lsn
  /-- Branches have unbroken logs. -/
  branch : ∀ branch ∈ history.live :: history.ended, Branch history.origin branch
  /-- What is on a branch is on PBS. -/
  recorded : ∀ branch ∈ history.live :: history.ended, ∀ item ∈ branch,
    item ∈ history.snapshots
  /-- The live branch is not ahead of the database. -/
  reached : ∀ item ∈ history.live, item.last ≤ history.lsn
  /-- Backups lie in the past, and end past the origin. -/
  taken : ∀ item ∈ history.snapshots, item.time ≤ history.now ∧ history.origin ≤ item.last
  /-- What is off the live branch was taken before the last restore. -/
  abandoned : ∀ item ∈ history.snapshots, item ∉ history.live →
    ∃ time, history.lastRestore = some time ∧ item.time ≤ time

namespace HistoryInv

variable {history next : DbHistory}

theorem create (lsn : Nat) (now : Int) : HistoryInv (DbHistory.create lsn now) where
  origin_le := le_refl _
  branch := by simpa [DbHistory.create] using Branch.nil
  recorded := by simp [DbHistory.create]
  reached := by simp [DbHistory.create]
  taken := by simp [DbHistory.create]
  abandoned := by simp [DbHistory.create]

/-- A backup that continues the branch, taken now and here, keeps the invariant. -/
theorem record (h : HistoryInv history) {item : ChainItem} (htime : item.time = history.now)
    (hlast : item.last = history.lsn) (hbranch : Branch history.origin (history.live ++ [item])) :
    HistoryInv (history.record item) := by
  have hsnapshots : ∀ other ∈ (history.record item).snapshots,
      other ∈ history.snapshots ∨ other = item := by
    simp [DbHistory.record]
  have hlive : ∀ other ∈ (history.record item).live, other ∈ history.live ∨ other = item := by
    simp [DbHistory.record]
  refine ⟨h.origin_le, ?_, ?_, ?_, ?_, ?_⟩
  · intro branch hmem
    rcases mem_cons.mp hmem with rfl | hended
    · exact hbranch
    · exact h.branch branch (mem_cons_of_mem _ hended)
  · intro branch hmem other hother
    refine mem_append.mpr ?_
    rcases mem_cons.mp hmem with rfl | hended
    · rcases hlive other hother with hold | rfl
      · exact .inl (h.recorded _ mem_cons_self other hold)
      · exact .inr mem_cons_self
    · exact .inl (h.recorded branch (mem_cons_of_mem _ hended) other hother)
  · intro other hother
    rcases hlive other hother with hold | rfl
    · exact h.reached other hold
    · exact hlast.le
  · intro other hother
    rcases hsnapshots other hother with hold | rfl
    · exact h.taken other hold
    · exact ⟨htime.le, h.origin_le.trans hlast.ge⟩
  · intro other hother hdead
    rcases hsnapshots other hother with hold | rfl
    · exact h.abandoned other hold fun hmem => hdead (mem_append_left _ hmem)
    · exact absurd (mem_append_right _ mem_cons_self) hdead

theorem logEnd_le (h : HistoryInv history) : logEnd history.origin history.live ≤ history.lsn := by
  rcases logEnd_cases history.origin history.live with horigin | ⟨log, hlog, -, hend⟩
  · exact horigin.le.trans h.origin_le
  · exact hend.symm.le.trans (h.reached log hlog)

theorem step (hstep : HistoryStep history next) (h : HistoryInv history) : HistoryInv next := by
  cases hstep with
  | work hlsn hnow =>
    refine ⟨h.origin_le.trans hlsn, h.branch, h.recorded, ?_, ?_, h.abandoned⟩
    · exact fun item hitem => (h.reached item hitem).trans hlsn
    · exact fun item hitem => ⟨(h.taken item hitem).1.trans hnow, (h.taken item hitem).2⟩
  | full hkind htime hlast =>
    exact h.record htime hlast (.full (h.branch _ mem_cons_self) hkind)
  | log hkind htime hfirst hlast =>
    have hrange := hfirst.le.trans (h.logEnd_le.trans hlast.ge)
    exact h.record htime hlast (.log (h.branch _ mem_cons_self) hkind hfirst hrange)
  | @restore kept abandoned point lsn hbranch _ hkept _ horigin =>
    have hkeptMem : ∀ item ∈ kept, item ∈ history.snapshots := fun item hitem =>
      h.recorded _ hbranch item (mem_append_left _ hitem)
    refine ⟨horigin, ?_, ?_, fun item hitem => (hkept item hitem).2, h.taken, ?_⟩
    · intro other hother
      rcases mem_cons.mp hother with rfl | hended
      · exact (h.branch _ hbranch).of_append
      · exact h.branch other hended
    · intro other hother
      rcases mem_cons.mp hother with rfl | hended
      · exact hkeptMem
      · exact h.recorded other hended
    · exact fun item hitem _ => ⟨history.now, rfl, (h.taken item hitem).1⟩

theorem of_reaches {lsn : Nat} {now : Int} (hrun : HistoryReaches (.create lsn now) history) :
    HistoryInv history :=
  Transition.invariant_of_reachable (create lsn now) (fun _ _ h hstep => step hstep h) hrun

end HistoryInv

/-! ### Chains -/

/-- Each log starts at or before the LSN reached so far. -/
def Applies (reached : Nat) : List ChainItem → Prop
  | [] => True
  | log :: rest => log.first ≤ reached ∧ Applies (max reached log.last) rest

/-- A chain of which each log can be applied after what comes before it. -/
def Contiguous : List ChainItem → Prop
  | [] => True
  | full :: logs => Applies full.last logs

/-- Logs can be applied in an order where each starts by the base or by the end of
an earlier one. -/
theorem applies_of_earlier {reached : Nat} {logs : List ChainItem}
    (hearlier : ∀ (before : List ChainItem) (log : ChainItem) (later : List ChainItem),
      logs = before ++ log :: later →
        log.first ≤ reached ∨ ∃ earlier ∈ before, log.first ≤ earlier.last) :
    Applies reached logs := by
  induction logs generalizing reached with
  | nil => trivial
  | cons log rest ih =>
    refine ⟨?_, ih fun before next later hsplit => ?_⟩
    · exact (hearlier [] log rest rfl).resolve_right fun ⟨_, hmem, _⟩ => nomatch hmem
    · rcases hearlier (log :: before) next later (by rw [hsplit]; rfl) with
        hreach | ⟨earlier, hmem, hle⟩
      · exact .inl (hreach.trans (le_max_left _ _))
      · rcases mem_cons.mp hmem with rfl | hmem
        · exact .inl (hle.trans (le_max_right _ _))
        · exact .inr ⟨earlier, hmem, hle⟩

namespace DbHistory

/-- A listing of the snapshots: the full group and then the log group, each in
whatever order PBS gives. -/
def Listing (history : DbHistory) (items : List ChainItem) : Prop :=
  ∃ fulls logs, fulls.Perm (history.snapshots.filter fun item => !item.isLog) ∧
    logs.Perm (history.snapshots.filter ChainItem.isLog) ∧ items = fulls ++ logs

/-- A chain that restores the database as it is: nothing of an abandoned branch, and
no gap. -/
def Restores (history : DbHistory) (chain : List ChainItem) : Prop :=
  (∀ item ∈ chain, item ∈ history.live) ∧ Contiguous chain

/-- The newest full at or before a target is on the live branch, and each abandoned
log ends by that full or starts after a log that reaches the target. -/
def BranchClear (history : DbHistory) (target : Int) : Prop :=
  ∀ full, NewestFull history.snapshots target full → full ∈ history.live ∧
    ∀ log ∈ history.snapshots, log.isLog = true → log ∉ history.live → full.last < log.last →
      ∃ cover ∈ history.live, cover.isLog = true ∧ full.last < cover.last ∧
        target ≤ cover.time ∧ cover.first < log.first

variable {history : DbHistory} {items : List ChainItem} {target : Int} {full log : ChainItem}

theorem Listing.mem_iff (h : history.Listing items) {item : ChainItem} :
    item ∈ items ↔ item ∈ history.snapshots := by
  obtain ⟨fulls, logs, hfulls, hlogs, rfl⟩ := h
  rw [mem_append, hfulls.mem_iff, hlogs.mem_iff]
  cases hkind : item.isLog <;> simp [hkind]

theorem Listing.newestFull (h : history.Listing items) (hfull : NewestFull items target full) :
    NewestFull history.snapshots target full :=
  ⟨h.mem_iff.mp hfull.mem, hfull.isFull, hfull.before,
    fun other hother => hfull.newest other (h.mem_iff.mpr hother)⟩

theorem Listing.newestFull_items (h : history.Listing items)
    (hfull : NewestFull history.snapshots target full) : NewestFull items target full :=
  ⟨h.mem_iff.mpr hfull.mem, hfull.isFull, hfull.before,
    fun other hother => hfull.newest other (h.mem_iff.mp hother)⟩

theorem exists_listing (hfull : full ∈ history.snapshots) (hkind : full.isLog = false)
    {logs : List ChainItem} (hlogs : logs.Perm (history.snapshots.filter ChainItem.isLog)) :
    ∃ fulls, (∀ item ∈ fulls ++ [full], item.isLog = false) ∧
      history.Listing (fulls ++ [full] ++ logs) := by
  have hmem : full ∈ history.snapshots.filter fun item => !item.isLog :=
    mem_filter.mpr ⟨hfull, by simp [hkind]⟩
  let fulls := (history.snapshots.filter fun item => !item.isLog).erase full
  have hperm : (fulls ++ [full]).Perm (history.snapshots.filter fun item => !item.isLog) :=
    (perm_append_singleton full fulls).trans (perm_cons_erase hmem).symm
  refine ⟨fulls, fun item hitem => ?_, _, logs, hperm, hlogs, rfl⟩
  simpa using (mem_filter.mp (hperm.mem_iff.mp hitem)).2

theorem BranchClear.restores (h : HistoryInv history) (hclear : history.BranchClear target)
    (hitems : history.Listing items) : history.Restores (selectChain items target) := by
  rcases selectChain_cases items target with hempty | ⟨full, hfull, hchain⟩
  · rw [hempty]
    exact ⟨nofun, trivial⟩
  obtain ⟨hlive, habandoned⟩ := hclear full (hitems.newestFull hfull)
  have hsort : (sortByKey ChainItem.first (logsPast items full.last)).Pairwise
      fun left right => left.first ≤ right.first := sortByKey_pairwise
  have hcandidate : ∀ {item : ChainItem},
      item ∈ sortByKey ChainItem.first (logsPast items full.last) ↔
        item ∈ history.snapshots ∧ item.isLog = true ∧ full.last < item.last := by
    intro item
    rw [mem_sortByKey, mem_logsPast, hitems.mem_iff]
  rw [hchain]
  set logs := sortByKey ChainItem.first (logsPast items full.last)
  set taken := takeThrough (fun log : ChainItem => decide (target ≤ log.time)) logs
  have htaken : ∀ item ∈ taken, item ∈ history.live := by
    intro item hitem
    by_contra hdead
    obtain ⟨hmem, hisLog, hpast⟩ := hcandidate.mp (takeThrough_isPrefix.subset hitem)
    obtain ⟨cover, hcover, hcoverLog, hcoverPast, hreach, hfirst⟩ :=
      habandoned item hmem hisLog hdead hpast
    have hcoverMem := h.recorded _ mem_cons_self cover hcover
    exact not_mem_takeThrough hsort (hcandidate.mpr ⟨hcoverMem, hcoverLog, hcoverPast⟩)
      (by simpa using hreach) hfirst hitem
  refine ⟨fun item hitem => ?_, applies_of_earlier fun before log later hsplit => ?_⟩
  · rcases mem_cons.mp hitem with rfl | hlog
    · exact hlive
    · exact htaken item hlog
  · -- the log of the live branch that ends where this one starts is sorted before it
    by_cases hbase : log.first ≤ full.last
    · exact .inl hbase
    have hlog : log ∈ taken := by simp [hsplit]
    obtain ⟨-, hisLog, -⟩ := hcandidate.mp (takeThrough_isPrefix.subset hlog)
    have hbranch := h.branch _ mem_cons_self
    have horigin := (h.taken full (hitems.mem_iff.mp hfull.mem)).2
    obtain ⟨earlier, hearlier, hearlierLog, hend, hfirst⟩ :=
      (hbranch.log_before horigin log (htaken log hlog) hisLog).2 (by omega)
    have hmem := h.recorded _ mem_cons_self earlier hearlier
    obtain ⟨rest, hrest⟩ : taken <+: logs := takeThrough_isPrefix
    have hlogs : logs = before ++ log :: (later ++ rest) := by
      rw [← hrest, ← cons_append, ← append_assoc, ← hsplit]
    refine .inr ⟨earlier, mem_before_of_key_lt hsort hlogs ?_ hfirst, hend.ge⟩
    exact hcandidate.mpr ⟨hmem, hearlierLog, by omega⟩

/-- If every listing's chain is on the live branch, then the branch is clear: a
listing with an abandoned newest full last, or with an abandoned log first, would
show it. -/
theorem branchClear_of_restores (h : HistoryInv history)
    (htarget : ∀ time, history.lastRestore = some time → time < target)
    (hrestores : ∀ items, history.Listing items → history.Restores (selectChain items target)) :
    history.BranchClear target := by
  intro full hfull
  refine ⟨?_, fun log hlog hisLog hdead hpast => ?_⟩
  · obtain ⟨fulls, -, hlisting⟩ :=
      exists_listing hfull.mem hfull.isFull (List.Perm.refl _)
    refine (hrestores _ hlisting).1 full ?_
    rw [selectChain_of_last (hlisting.newestFull_items hfull)
      fun item hitem => (mem_filter.mp hitem).2]
    exact mem_cons_self
  · by_contra hcover
    have hmem : log ∈ history.snapshots.filter ChainItem.isLog := mem_filter.mpr ⟨hlog, hisLog⟩
    have hperm := (perm_cons_erase hmem).symm
    set logs := (history.snapshots.filter ChainItem.isLog).erase log
    have hlogs : ∀ item ∈ log :: logs, item ∈ history.snapshots ∧ item.isLog = true :=
      fun item hitem => mem_filter.mp (hperm.mem_iff.mp hitem)
    obtain ⟨fulls, hfulls, hlisting⟩ := exists_listing hfull.mem hfull.isFull hperm
    refine hdead ((hrestores _ hlisting).1 log ?_)
    rw [selectChain_of_last (hlisting.newestFull_items hfull) fun item hitem => (hlogs item hitem).2]
    have hcandidates : logsPast (fulls ++ [full] ++ log :: logs) full.last =
        log :: logsPast logs full.last := by
      rw [logsPast, filter_append]
      have hnil := @logsPast_eq_nil _ full.last hfulls
      rw [logsPast] at hnil
      rw [hnil, nil_append, filter_cons_of_pos (by simp [hisLog, hpast])]
      rfl
    rw [hcandidates]
    refine mem_cons_of_mem _ (mem_takeThrough_sortByKey fun other hother hreach => ?_)
    -- a log that reaches the target was taken after the last restore, so it is live
    by_contra hfirst
    obtain ⟨hotherMem, hotherLog, hotherPast⟩ := mem_logsPast.mp hother
    have hreach : target ≤ other.time := by simpa using hreach
    refine hcover ⟨other, ?_, hotherLog, hotherPast, hreach, not_le.mp hfirst⟩
    by_contra hotherDead
    obtain ⟨time, hrest, hpre⟩ :=
      h.abandoned other (hlogs other (mem_cons_of_mem _ hotherMem)).1 hotherDead
    have := htarget time hrest
    omega

end DbHistory

/-- For a target after the last restore, the chains of all listings are on the live
branch and without gaps exactly if the branch is clear of the abandoned ones. -/
theorem selectChain_restores_iff {lsn : Nat} {now : Int} {history : DbHistory}
    (hrun : HistoryReaches (.create lsn now) history) {target : Int}
    (htarget : ∀ time, history.lastRestore = some time → time < target) :
    (∀ items, history.Listing items → history.Restores (selectChain items target)) ↔
      history.BranchClear target := by
  have h := HistoryInv.of_reaches hrun
  constructor
  · exact DbHistory.branchClear_of_restores h htarget
  · exact fun hclear items hitems => hclear.restores h hitems

namespace HistoryReaches

variable {start history : DbHistory} {lsn : Nat} {now : Int} {item : ChainItem}

theorem full (hrun : HistoryReaches start history) (hlater : history.lsn ≤ lsn ∧ history.now ≤ now)
    (hitem : item.isLog = false ∧ item.time = now ∧ item.last = lsn ∧ item.first ≤ item.last) :
    HistoryReaches start ((history.advance lsn now).record item) :=
  (hrun.tail (.work hlater.1 hlater.2)).tail
    (.full hitem.1 hitem.2.1 hitem.2.2.1 hitem.2.2.2)

theorem log (hrun : HistoryReaches start history)
    (hlater : history.lsn ≤ lsn ∧ history.now ≤ now)
    (hitem : item.isLog = true ∧ item.time = now ∧
      item.first = logEnd history.origin history.live ∧ item.last = lsn) :
    HistoryReaches start ((history.advance lsn now).record item) :=
  (hrun.tail (.work hlater.1 hlater.2)).tail
    (.log hitem.1 hitem.2.1 hitem.2.2.1 hitem.2.2.2)

end HistoryReaches

def sampleBackup (kind : String) (time : Int) (first last : String) : ChainItem :=
  ⟨time, ⟨kind, time, first, last, "10", []⟩⟩

def sampleKept : DbHistory :=
  ((DbHistory.create 10 90).advance 20 100 |>.record (sampleBackup "full" 100 "10" "20")).advance
    30 110 |>.record (sampleBackup "log" 110 "10" "30")

/-- A second log backup, and then a restore to the end of the first one. -/
def sampleRestored : DbHistory :=
  ((sampleKept.advance 40 120).record (sampleBackup "log" 120 "30" "40")).rewind sampleKept.live 30

def sampleAppended : DbHistory :=
  (sampleRestored.advance 35 140).record (sampleBackup "log" 140 "30" "35")

/-- After the restore a full is taken, past the end of the abandoned log. -/
def sampleRebased : DbHistory :=
  ((sampleRestored.advance 45 140).record (sampleBackup "full" 140 "44" "45")).advance 50 150
    |>.record (sampleBackup "log" 150 "30" "50")

theorem sampleRestored_reached : HistoryReaches (.create 10 90) sampleRestored := by
  have hkept : HistoryReaches (.create 10 90) sampleKept :=
    HistoryReaches.log (HistoryReaches.full .refl (by decide) (by decide)) (by decide) (by decide)
  have htaken : HistoryReaches (.create 10 90)
      ((sampleKept.advance 40 120).record (sampleBackup "log" 120 "30" "40")) :=
    hkept.log (by decide) (by decide)
  exact htaken.tail (@HistoryStep.restore _ _ [sampleBackup "log" 120 "30" "40"] 110 _
    (by decide) (by decide) (by decide) (by decide) (by decide))

/-- The chain to a target after the restore has the abandoned log in it. -/
theorem selectChain_takes_abandoned :
    HistoryReaches (.create 10 90) sampleAppended ∧
      (∀ time, sampleAppended.lastRestore = some time → time < 140) ∧
      sampleAppended.Listing sampleAppended.snapshots ∧
      sampleBackup "log" 120 "30" "40" ∈ selectChain sampleAppended.snapshots 140 ∧
      sampleBackup "log" 120 "30" "40" ∉ sampleAppended.live := by
  refine ⟨sampleRestored_reached.log (by decide) (by decide), ?_, ?_, by decide, by decide⟩
  · rintro time ⟨⟩
    decide
  · exact ⟨_, _, .refl _, .refl _, by decide⟩

/-- With a full after the restore the chain is on the live branch. -/
theorem sampleRebased_restores :
    HistoryReaches (.create 10 90) sampleRebased ∧
      (∀ time, sampleRebased.lastRestore = some time → time < 145) ∧
      ∀ items, sampleRebased.Listing items → sampleRebased.Restores (selectChain items 145) := by
  have hrun : HistoryReaches (.create 10 90) sampleRebased :=
    (sampleRestored_reached.full (by decide) (by decide)).log (by decide) (by decide)
  have htarget : ∀ time, sampleRebased.lastRestore = some time → time < 145 := by
    rintro time ⟨⟩
    decide
  have hclear : ∀ full ∈ sampleRebased.snapshots, full.isLog = false → full.time ≤ 145 →
      (∀ other ∈ sampleRebased.snapshots, other.isLog = false → other.time ≤ 145 →
        other.time ≤ full.time) →
      full ∈ sampleRebased.live ∧ ∀ log ∈ sampleRebased.snapshots, log.isLog = true →
        log ∉ sampleRebased.live → ¬ full.last < log.last := by
    decide
  refine ⟨hrun, htarget, (selectChain_restores_iff hrun htarget).mpr fun full hfull => ?_⟩
  obtain ⟨hlive, hended⟩ := hclear full hfull.mem hfull.isFull hfull.before hfull.newest
  exact ⟨hlive, fun log hlog hisLog hdead hpast => absurd hpast (hended log hlog hisLog hdead)⟩

end PbsGui.Engine
