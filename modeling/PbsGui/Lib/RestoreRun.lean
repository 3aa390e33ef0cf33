import Mathlib.Data.List.Basic

/-!
# Restoring a database from a chain of backups

A server restores a full backup and then log backups, one command each, until a command recovers
the database.  Commands that restore a chain's backups in order and recover the database with
the last of them end with the database online and exactly those backups applied.
-/

namespace PbsGui.Lib

open List

variable {σ τ : Type}

/-- A command to the server. -/
structure RestoreCommand (σ τ : Type) where
  /-- The backup that is restored, if any, and whether it is a log. -/
  backup : Option (Bool × σ)
  /-- The time at which the restore of a log stops. -/
  stop : Option τ
  recovers : Bool
  deriving DecidableEq

/-- The database at the server. -/
inductive DatabasePhase (σ : Type)
  /-- As it was before. -/
  | before
  | restoring (applied : List (Bool × σ))
  | online (applied : List (Bool × σ))
  | failed

/-- Where a command that succeeds leaves the database. -/
def RestoreCommand.leaves (command : RestoreCommand σ τ) (applied : List (Bool × σ)) :
    DatabasePhase σ :=
  if command.recovers then .online applied else .restoring applied

/-- A full backup replaces the database; a log is applied to one that is not recovered yet. -/
def DatabasePhase.apply (phase : DatabasePhase σ) (command : RestoreCommand σ τ) :
    DatabasePhase σ :=
  match command.backup, phase with
  | some (false, source), _ => command.leaves [(false, source)]
  | some (true, source), .restoring applied => command.leaves (applied ++ [(true, source)])
  | none, .restoring applied => command.leaves applied
  | some (true, _), _ | none, _ => .failed

/-- The chain's backups are restored in order, the last log up to the given time, and the
last command alone recovers the database. -/
structure ReplaysChain (chain : List (Bool × σ)) (stop : τ) (commands : List (RestoreCommand σ τ)) :
    Prop where
  first : ∃ command later, commands = command :: later ∧ command.backup = chain.head?
  in_order : commands.filterMap RestoreCommand.backup = chain
  stops : ∀ source, chain.getLast? = some (true, source) → ∃ front command later,
    commands = front ++ command :: later ∧ command.backup = some (true, source) ∧
      command.stop = some stop ∧ ∀ other ∈ later, other.backup = none
  recovers_last : ∃ front last, commands = front ++ [last] ∧ last.recovers = true ∧
    ∀ command ∈ front, command.recovers = false

variable {command : RestoreCommand σ τ}

theorem DatabasePhase.apply_log (applied : List (Bool × σ))
    (h : ∀ backup, command.backup = some backup → backup.1 = true) :
    (restoring applied).apply command = command.leaves (applied ++ command.backup.toList) := by
  cases hback : command.backup with
  | none => simp [apply, hback]
  | some backup =>
    obtain ⟨isLog, source⟩ := backup
    obtain rfl : isLog = true := h _ hback
    simp [apply, hback]

variable {commands : List (RestoreCommand σ τ)}

theorem foldl_apply_restoring (applied : List (Bool × σ))
    (hlogs : ∀ command ∈ commands, ∀ backup, command.backup = some backup → backup.1 = true)
    (hopen : ∀ command ∈ commands, command.recovers = false) :
    commands.foldl DatabasePhase.apply (.restoring applied) =
      .restoring (applied ++ commands.filterMap RestoreCommand.backup) := by
  induction commands generalizing applied with
  | nil => simp
  | cons command commands ih =>
    have hleaves : command.leaves (applied ++ command.backup.toList) =
        .restoring (applied ++ command.backup.toList) := by
      rw [RestoreCommand.leaves, hopen command mem_cons_self]
      rfl
    rw [foldl_cons, DatabasePhase.apply_log applied (hlogs command mem_cons_self), hleaves,
      ih _ (forall_mem_cons.mp hlogs).2 (forall_mem_cons.mp hopen).2, append_assoc]
    cases hback : command.backup with
    | none => rw [filterMap_cons_none hback, Option.toList_none, nil_append]
    | some => rw [filterMap_cons_some hback, Option.toList_some, singleton_append]

/-- A replay of a full backup and logs ends with the database online, and with these
backups applied. -/
theorem ReplaysChain.foldl_apply {full : σ} {logs : List (Bool × σ)} {stop : τ}
    (h : ReplaysChain ((false, full) :: logs) stop commands) (hlogs : ∀ log ∈ logs, log.1 = true) :
    commands.foldl DatabasePhase.apply .before = .online ((false, full) :: logs) := by
  obtain ⟨command, later, rfl, hfirst⟩ := h.first
  obtain ⟨front, last, hsplit, hlast, hfront⟩ := h.recovers_last
  have horder := h.in_order
  rw [filterMap_cons_some hfirst] at horder
  have hrest : later.filterMap RestoreCommand.backup = logs := (cons.inj horder).2
  have hends : ∀ applied, last.leaves applied = .online applied := fun applied => by
    rw [RestoreCommand.leaves, hlast]
    rfl
  have hfull : DatabasePhase.before.apply command = command.leaves [(false, full)] := by
    simp [DatabasePhase.apply, hfirst]
  rw [foldl_cons, hfull, ← hrest]
  cases front with
  | nil =>
    -- the full is alone
    cases hsplit
    exact hends [(false, full)]
  | cons other front =>
    obtain ⟨rfl, hlater⟩ := cons.inj hsplit
    rw [append_eq] at hlater
    subst hlater
    have hisLog : ∀ command ∈ front ++ [last], ∀ backup, command.backup = some backup →
        backup.1 = true := fun command hcommand backup hback =>
      hlogs backup (hrest ▸ mem_filterMap.mpr ⟨command, hcommand, hback⟩)
    have hopen : command.leaves [(false, full)] = .restoring [(false, full)] := by
      rw [RestoreCommand.leaves, hfront command mem_cons_self]
      rfl
    rw [hopen, foldl_append, foldl_apply_restoring [(false,
      full)] (forall_mem_append.mp hisLog).1 (forall_mem_cons.mp hfront).2, foldl_cons, foldl_nil,
      DatabasePhase.apply_log _ (hisLog last (by simp)), hends, filterMap_append]
    cases hback : last.backup with
    | none | some => simp [hback]

end PbsGui.Lib
