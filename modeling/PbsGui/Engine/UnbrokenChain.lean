import Mathlib.Data.List.Chain
import PbsGui.Engine.BackupHistory

/-!
# The restore chain of an unbroken history

A database that was never restored over itself has one line of log backups, each
of which starts where the one before ended.  For such a history `selectChain` is
the newest full at or before the target, and the logs from the first that ends past the full to
the first that reaches the target.
-/

namespace PbsGui.Engine

open Lib List

/-- The backups of a database whose log was never broken: the fulls, and the logs
in the order of their LSNs. -/
structure Unbroken (fulls logs : List ChainItem) : Prop where
  fullKind : ∀ full ∈ fulls, full.isLog = false
  logKind : ∀ log ∈ logs, log.isLog = true
  /-- Each log starts where the one before ended. -/
  linked : logs.IsChain fun log next => next.first = log.last
  /-- The LSNs rise strictly. -/
  rising : ∀ log ∈ logs, log.first < log.last
  /-- The logs finish in the order of their LSNs. -/
  timed : logs.Pairwise fun log later => log.time ≤ later.time
  /-- No two fulls finish at the same time. -/
  distinct : fulls.Pairwise fun full other => full.time ≠ other.time
  /-- Every full ends at or after the start of the first log. -/
  bridged : ∀ full ∈ fulls, ∀ log ∈ logs.head?, log.first ≤ full.last
  /-- A log that ends past a full finishes no earlier. -/
  later : ∀ full ∈ fulls, ∀ log ∈ logs, full.last < log.last → full.time ≤ log.time

/-- The logs of a history from the first that ends past a full, up to the first
that reaches the target. -/
def logsTo (logs : List ChainItem) (full : ChainItem) (target : Int) : List ChainItem :=
  takeThrough (fun log => decide (target ≤ log.time))
    (logs.dropWhile fun log => decide (log.last ≤ full.last))

section Line

variable {logs : List ChainItem}

variable (hlinked : logs.IsChain fun log next => next.first = log.last)

include hlinked

theorem linked_pairwise (hrising : ∀ log ∈ logs, log.first < log.last) :
    logs.Pairwise fun log later => log.last ≤ later.first := by
  induction logs with
  | nil => exact List.Pairwise.nil
  | cons log rest ih =>
    have hrest := ih hlinked.of_cons (forall_mem_cons.mp hrising).2
    refine pairwise_cons.mpr ⟨fun later hlater => ?_, hrest⟩
    cases rest with
    | nil => exact absurd hlater not_mem_nil
    | cons next =>
      have hnext : next.first = log.last := hlinked.rel
      rcases mem_cons.mp hlater with rfl | hfar
      · exact hnext.ge
      · have hstep := hrising next (mem_cons_of_mem _ mem_cons_self)
        have hfurther := (pairwise_cons.mp hrest).1 later hfar
        omega

theorem head_dropWhile_first {base : Nat} (hhead : ∀ log ∈ logs.head?, log.first ≤ base) :
    ∀ log ∈ (logs.dropWhile fun log => decide (log.last ≤ base)).head?, log.first ≤ base := by
  induction logs with
  | nil => exact hhead
  | cons log rest ih =>
    rw [dropWhile_cons]
    split
    · next hended =>
        refine ih hlinked.of_cons fun next hnext => ?_
        cases rest with
        | nil => cases hnext
        | cons =>
          cases hnext
          rw [hlinked.rel]
          exact of_decide_eq_true hended
    · exact hhead

theorem applies_of_linked {reached : Nat} (hhead : ∀ log ∈ logs.head?, log.first ≤ reached) :
    Applies reached logs := by
  induction logs generalizing reached with
  | nil => trivial
  | cons log rest ih =>
    refine ⟨hhead log rfl, ih hlinked.of_cons fun next hnext => ?_⟩
    cases rest with
    | nil => cases hnext
    | cons =>
      cases hnext
      rw [hlinked.rel]
      exact le_max_right _ _

end Line

section Chain

variable {fulls logs items : List ChainItem} {target : Int} {full : ChainItem}

theorem Unbroken.mem_iff (hperm : items.Perm (fulls ++ logs)) {item : ChainItem} :
    item ∈ items ↔ item ∈ fulls ∨ item ∈ logs := by
  rw [hperm.mem_iff, mem_append]

section

variable (h : Unbroken fulls logs) (hperm : items.Perm (fulls ++ logs))

include h hperm

theorem Unbroken.mem_fulls_iff {item : ChainItem} :
    item ∈ fulls ↔ item ∈ items ∧ item.isLog = false := by
  rw [Unbroken.mem_iff hperm]
  constructor
  · exact fun hfull => ⟨Or.inl hfull, h.fullKind item hfull⟩
  · rintro ⟨hfull | hlog, hkind⟩
    · exact hfull
    · rw [h.logKind item hlog] at hkind
      cases hkind

/-- The logs past a full, sorted, are the rest of the line from the first that ends
past it. -/
theorem Unbroken.sorted_logsPast (base : Nat) :
    sortByKey ChainItem.first (logsPast items base) =
      logs.dropWhile fun log => decide (log.last ≤ base) := by
  have hline := linked_pairwise h.linked h.rising
  have hends : logs.Pairwise fun log later => log.last ≤ later.last :=
    hline.imp_of_mem fun _ hlater hle => hle.trans (h.rising _ hlater).le
  have hstarts : logs.Pairwise fun log later => log.first < later.first :=
    hline.imp_of_mem fun hlog _ hle => (h.rising _ hlog).trans_le hle
  have hlogs : logsPast logs base = logs.filter fun log => decide (base < log.last) :=
    filter_congr fun log hlog => by rw [h.logKind log hlog, Bool.true_and]
  have hpast : (logsPast items base).Perm (logs.dropWhile fun log => decide (log.last ≤ base)) := by
    rw [← filter_eq_dropWhile hends, ← hlogs]
    refine (hperm.filter _).trans ?_
    rw [filter_append, ← logsPast, logsPast_eq_nil h.fullKind, nil_append]
    exact List.Perm.refl _
  exact sortByKey_eq_of_perm hpast (hstarts.sublist (dropWhile_sublist _))

theorem Unbroken.selectChain_eq (hfull : full ∈ fulls) (hpre : full.time ≤ target)
    (hnew : ∀ other ∈ fulls, other.time ≤ target → other.time ≤ full.time) :
    selectChain items target = full :: logsTo logs full target := by
  obtain ⟨hitem, hkind⟩ := (h.mem_fulls_iff hperm).mp hfull
  rcases selectChain_cases items target with hnil | ⟨base, hbase, hchain⟩
  · exact absurd hpre (not_le.mpr (selectChain_eq_nil_iff.mp hnil full hitem hkind))
  · have hmem : base ∈ fulls := (h.mem_fulls_iff hperm).mpr ⟨hbase.mem, hbase.isFull⟩
    have htime : base.time = full.time :=
      le_antisymm (hnew base hmem hbase.before) (hbase.newest full hitem hkind hpre)
    obtain rfl := eq_of_key_eq h.distinct hmem hfull htime
    rw [hchain, h.sorted_logsPast hperm, logsTo]

end

theorem Unbroken.contiguous (h : Unbroken fulls logs) (hfull : full ∈ fulls) (target : Int) :
    Contiguous (full :: logsTo logs full target) := by
  obtain ⟨rest, hsplit⟩ : logsTo logs full target <+:
      logs.dropWhile fun log => decide (log.last ≤ full.last) := takeThrough_isPrefix
  have hlinked := h.linked.suffix
    (dropWhile_suffix fun log : ChainItem => decide (log.last ≤ full.last))
  have hhead := head_dropWhile_first h.linked (h.bridged full hfull)
  rw [← hsplit] at hlinked hhead
  refine applies_of_linked hlinked.left_of_append fun log hlog => hhead log ?_
  cases hlogs : logsTo logs full target with
  | nil => rw [hlogs] at hlog; cases hlog
  | cons => rw [hlogs] at hlog; exact hlog

/-- The chain covers the target when one of its backups finished at or after it. -/
theorem Unbroken.chainCovers_iff (h : Unbroken fulls logs) (hfull : full ∈ fulls) :
    chainCovers (full :: logsTo logs full target) target = true ↔
      target ≤ full.time ∨ ∃ log ∈ logsTo logs full target, target ≤ log.time := by
  have hreaching : (∃ log ∈ logsTo logs full target, target ≤ log.time) ↔
      ∃ log ∈ logs.dropWhile fun log => decide (log.last ≤ full.last), target ≤ log.time := by
    simpa [logsTo] using @exists_mem_takeThrough_iff _ (fun log => decide (target ≤ log.time))
      (logs.dropWhile fun log => decide (log.last ≤ full.last))
  rw [logsTo, chainCovers_takeThrough, ← logsTo, hreaching]
  constructor
  · rintro (hlog | ⟨-, hreach⟩)
    · exact Or.inr hlog
    · exact Or.inl hreach
  · rintro (hreach | hlog)
    · -- A log after the full finished no earlier, so the first one reaches the target too.
      cases hlogs : logs.dropWhile fun log => decide (log.last ≤ full.last) with
      | nil => exact Or.inr ⟨rfl, hreach⟩
      | cons log =>
        have hsublist := dropWhile_sublist (fun log => decide (log.last ≤ full.last))
          (l := logs)
        rw [hlogs] at hsublist
        have hmem : log ∈ logs := hsublist.subset mem_cons_self
        have hpast : full.last < log.last := by
          have hstop := head?_dropWhile_not (fun log => decide (log.last ≤ full.last)) logs
          simpa [hlogs] using hstop
        exact Or.inl ⟨log, mem_cons_self, hreach.trans (h.later full hfull log hmem hpast)⟩
    · exact Or.inl hlog

/-- **The chain of an unbroken history.**  For every order in which its snapshots
are listed and every target:

* there is no chain exactly when no full finished at or before the target;
* otherwise the chain is the newest such full and then the logs of the line from
  the first that ends past it up to and including the first that reaches the
  target, which leaves no gap between LSNs;
* the order of the listing does not matter;
* the chain covers the target exactly when the full or one of those logs finished
  at or after it. -/
theorem selectChain_of_unbroken (h : Unbroken fulls logs) (hperm : items.Perm (fulls ++ logs)) :
    (selectChain items target = [] ↔ ∀ full ∈ fulls, target < full.time) ∧
    (∀ full ∈ fulls, full.time ≤ target →
      (∀ other ∈ fulls, other.time ≤ target → other.time ≤ full.time) →
        selectChain items target = full :: logsTo logs full target ∧
        Contiguous (selectChain items target) ∧
        (chainCovers (selectChain items target) target = true ↔
          target ≤ full.time ∨ ∃ log ∈ logsTo logs full target, target ≤ log.time)) ∧
    ∀ listed : List ChainItem, listed.Perm (fulls ++ logs) →
      selectChain listed target = selectChain items target := by
  have hempty {listed : List ChainItem} (hlisted : listed.Perm (fulls ++ logs)) :
      selectChain listed target = [] ↔ ∀ full ∈ fulls, target < full.time := by
    rw [selectChain_eq_nil_iff]
    constructor
    · intro hnone full hfull
      obtain ⟨hitem, hkind⟩ := (h.mem_fulls_iff hlisted).mp hfull
      exact hnone full hitem hkind
    · intro hnone item hitem hkind
      exact hnone item ((h.mem_fulls_iff hlisted).mpr ⟨hitem, hkind⟩)
  refine ⟨hempty hperm, fun full hfull hbefore hnewest => ?_, fun listed hlisted => ?_⟩
  · rw [h.selectChain_eq hperm hfull hbefore hnewest]
    exact ⟨rfl, h.contiguous hfull target, h.chainCovers_iff hfull⟩
  · rcases selectChain_cases items target with hnil | ⟨full, hfull, -⟩
    · rw [hnil, (hempty hlisted).mpr ((hempty hperm).mp hnil)]
    · have hmem : full ∈ fulls := (h.mem_fulls_iff hperm).mpr ⟨hfull.mem, hfull.isFull⟩
      have hnewest : ∀ other ∈ fulls, other.time ≤ target → other.time ≤ full.time := by
        intro other hother hbefore
        obtain ⟨hitem, hkind⟩ := (h.mem_fulls_iff hperm).mp hother
        exact hfull.newest other hitem hkind hbefore
      rw [h.selectChain_eq hlisted hmem hfull.before hnewest,
        h.selectChain_eq hperm hmem hfull.before hnewest]

end Chain

/-- Two fulls and a line of three logs; the second log runs while the second full
is taken. -/
theorem sampleLine_unbroken :
    Unbroken [sampleBackup "full" 100 "10" "20", sampleBackup "full" 200 "30" "40"]
      [sampleBackup "log" 150 "15" "35", sampleBackup "log" 210 "35" "50",
        sampleBackup "log" 220 "50" "60"] where
  fullKind := by decide
  logKind := by decide
  linked := by decide
  rising := by decide
  timed := by decide
  distinct := by decide
  bridged := by decide
  later := by decide

/-- Listed newest first, they give the second full, the log that bridges it and the
one that reaches the target. -/
theorem sampleLine_chain :
    selectChain [sampleBackup "log" 220 "50" "60", sampleBackup "log" 210 "35" "50",
        sampleBackup "full" 200 "30" "40", sampleBackup "log" 150 "15" "35",
        sampleBackup "full" 100 "10" "20"] 215 =
      [sampleBackup "full" 200 "30" "40", sampleBackup "log" 210 "35" "50",
        sampleBackup "log" 220 "50" "60"] := by
  obtain ⟨-, hchain, -⟩ := @selectChain_of_unbroken _ _ _ 215 sampleLine_unbroken
    (by decide : List.Perm [sampleBackup "log" 220 "50" "60", sampleBackup "log" 210 "35" "50",
        sampleBackup "full" 200 "30" "40", sampleBackup "log" 150 "15" "35",
        sampleBackup "full" 100 "10" "20"] _)
  exact (hchain (sampleBackup "full" 200 "30" "40") (by decide) (by decide) (by decide)).1

end PbsGui.Engine
