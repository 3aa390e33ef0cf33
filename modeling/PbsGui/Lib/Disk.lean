import Mathlib.Data.Set.Insert
import Mathlib.Logic.Function.Basic

/-!
# Files and the names they are found under

A name on a disk leads to a body.  Whoever has opened a file writes to its body, wherever the
name leads by then: creating a file under a name that is taken empties the body that is there,
and renaming a file takes its body along and loses the one that was found under the new name.
-/

namespace PbsGui.Lib

open Function

variable {Name α : Type*}

/-- A disk.  The bodies from `next` on have not been used. -/
structure Disk (Name α : Type*) where
  entry : Name → Option Nat
  body : Nat → List α
  next : Nat
  below : ∀ {name : Name} {node : Nat}, entry name = some node → node < next
  apart : ∀ {name other : Name} {node : Nat},
    entry name = some node → entry other = some node → name = other

/-- A body after a write at an offset; what lies between its end and the offset is filled. -/
def overwrite [Inhabited α] (old : List α) (offset : Nat) (piece : List α) : List α :=
  old.take offset ++ List.replicate (offset - old.length) default ++ piece ++
    old.drop (offset + piece.length)

theorem overwrite_length [Inhabited α] (old piece : List α) :
    overwrite old old.length piece = old ++ piece := by
  simp [overwrite]

namespace Disk

def empty : Disk Name α where
  entry _ := none
  body _ := []
  next := 0
  below h := nomatch h
  apart h := nomatch h

def content (disk : Disk Name α) (name : Name) : Option (List α) :=
  (disk.entry name).map disk.body

/-- The body that a file created under the name gets: the one that is there, or a new one. -/
def nodeFor (disk : Disk Name α) (name : Name) : Nat := (disk.entry name).getD disk.next

theorem nodeFor_ne {disk : Disk Name α} {name other : Name} {node : Nat} (hne : other ≠ name)
    (hother : disk.entry other = some node) : node ≠ disk.nodeFor name := by
  rintro rfl
  cases hname : disk.entry name with
  | none =>
    have hbelow := disk.below hother
    rw [nodeFor, hname] at hbelow
    exact absurd hbelow (Nat.lt_irrefl _)
  | some =>
    rw [nodeFor, hname] at hother
    exact hne (disk.apart hother hname)

def write [Inhabited α] (disk : Disk Name α) (node offset : Nat) (piece : List α) :
    Disk Name α :=
  { disk with body := Function.update disk.body node (overwrite (disk.body node) offset piece) }

section Names

variable [DecidableEq Name]

def create (disk : Disk Name α) (name : Name) : Disk Name α where
  entry := Function.update disk.entry name (some (disk.nodeFor name))
  body := Function.update disk.body (disk.nodeFor name) []
  next := max disk.next (disk.nodeFor name + 1)
  below {other node} h := by
    by_cases hother : other = name
    · rw [hother, Function.update_self] at h
      rw [← Option.some.inj h]
      exact Nat.lt_of_lt_of_le (Nat.lt_succ_self _) (Nat.le_max_right _ _)
    · rw [Function.update_of_ne hother] at h
      exact Nat.lt_of_lt_of_le (disk.below h) (Nat.le_max_left _ _)
  apart {first second node} hfirst hsecond := by
    by_cases h : first = name <;> by_cases h' : second = name
    · rw [h, h']
    · rw [h, Function.update_self] at hfirst
      rw [Function.update_of_ne h'] at hsecond
      exact absurd (Option.some.inj hfirst).symm (nodeFor_ne h' hsecond)
    · rw [Function.update_of_ne h] at hfirst
      rw [h', Function.update_self] at hsecond
      exact absurd (Option.some.inj hsecond).symm (nodeFor_ne h hfirst)
    · rw [Function.update_of_ne h] at hfirst
      rw [Function.update_of_ne h'] at hsecond
      exact disk.apart hfirst hsecond

def remove (disk : Disk Name α) (name : Name) : Disk Name α where
  entry := Function.update disk.entry name none
  body := disk.body
  next := disk.next
  below {other node} h := by
    by_cases hother : other = name
    · rw [hother, Function.update_self] at h
      cases h
    · rw [Function.update_of_ne hother] at h
      exact disk.below h
  apart {first second node} hfirst hsecond := by
    have hne : ∀ {other : Name}, Function.update disk.entry name none other = some node →
        disk.entry other = some node := by
      intro other h
      by_cases hother : other = name
      · rw [hother, Function.update_self] at h
        cases h
      · rwa [Function.update_of_ne hother] at h
    exact disk.apart (hne hfirst) (hne hsecond)

variable {disk : Disk Name α}

@[simp] theorem remove_entry_self {name : Name} : (disk.remove name).entry name = none :=
  update_self ..

theorem remove_entry_of_ne {name other : Name} (hne : other ≠ name) :
    (disk.remove name).entry other = disk.entry other :=
  update_of_ne hne _ _

/-- Lead a name to a body that no name leads to. -/
def link (disk : Disk Name α) (name : Name) (node : Nat) (hnode : node < disk.next)
    (hfree : ∀ other, disk.entry other ≠ some node) : Disk Name α where
  entry := Function.update disk.entry name (some node)
  body := disk.body
  next := disk.next
  below {other found} h := by
    by_cases hother : other = name
    · rw [hother, Function.update_self] at h
      exact Option.some.inj h ▸ hnode
    · rw [Function.update_of_ne hother] at h
      exact disk.below h
  apart {first second found} hfirst hsecond := by
    by_cases h : first = name <;> by_cases h' : second = name
    · rw [h, h']
    · rw [h, Function.update_self] at hfirst
      rw [Function.update_of_ne h', ← Option.some.inj hfirst] at hsecond
      exact absurd hsecond (hfree second)
    · rw [Function.update_of_ne h] at hfirst
      rw [h', Function.update_self] at hsecond
      rw [← Option.some.inj hsecond] at hfirst
      exact absurd hfirst (hfree first)
    · rw [Function.update_of_ne h] at hfirst
      rw [Function.update_of_ne h'] at hsecond
      exact disk.apart hfirst hsecond

theorem remove_entry_ne {name : Name} {node : Nat} (h : disk.entry name = some node) (other : Name) :
    (disk.remove name).entry other ≠ some node := by
  intro hother
  by_cases hsame : other = name
  · rw [hsame, remove_entry_self] at hother
    cases hother
  · rw [remove_entry_of_ne hsame] at hother
    exact hsame (disk.apart hother h)

/-- Rename a file, replacing what is found under the new name. -/
def rename (disk : Disk Name α) (source target : Name) : Option (Disk Name α) :=
  match h : disk.entry source with
  | none => none
  | some node => some ((disk.remove source).link target node (disk.below h) (remove_entry_ne h))

end Names

/-- Nothing has changed under any name but the given ones. -/
def SameBut (touched : Set Name) (before after : Disk Name α) : Prop :=
  ∀ name ∉ touched, after.entry name = before.entry name ∧
    ∀ node, before.entry name = some node → after.body node = before.body node

section Changes

variable {disk after : Disk Name α} {name source target : Name} {node offset : Nat}

theorem SameBut.mono {touched more : Set Name} (h : SameBut touched disk after)
    (hsubset : touched ⊆ more) : SameBut more disk after :=
  fun name hname => h name fun hmem => hname (hsubset hmem)

theorem SameBut.trans {touched : Set Name} {last : Disk Name α} (h : SameBut touched disk after)
    (hnext : SameBut touched after last) : SameBut touched disk last := by
  intro name hname
  obtain ⟨hentry, hbody⟩ := h name hname
  obtain ⟨hentry', hbody'⟩ := hnext name hname
  exact ⟨hentry'.trans hentry, fun node hnode =>
    (hbody' node (hentry.trans hnode)).trans (hbody node hnode)⟩

theorem SameBut.content {touched : Set Name} (h : SameBut touched disk after)
    (hname : name ∉ touched) : after.content name = disk.content name := by
  obtain ⟨hentry, hbody⟩ := h name hname
  rw [Disk.content, Disk.content, hentry]
  cases hfound : disk.entry name with
  | none => rfl
  | some node => exact congrArg some (hbody node hfound)

@[simp] theorem write_body_self [Inhabited α] {piece : List α} :
    (disk.write node offset piece).body node = overwrite (disk.body node) offset piece :=
  update_self ..

theorem write_sameBut [Inhabited α] {piece : List α} (h : disk.entry name = some node) :
    SameBut {name} disk (disk.write node offset piece) := by
  intro other hother
  refine ⟨rfl, fun found hfound => update_of_ne ?_ _ _⟩
  rintro rfl
  exact hother (disk.apart hfound h)

variable [DecidableEq Name]

@[simp] theorem create_entry_self :
    (disk.create name).entry name = some (disk.nodeFor name) :=
  update_self ..

@[simp] theorem create_body_self : (disk.create name).body (disk.nodeFor name) = [] :=
  update_self ..

theorem create_sameBut : SameBut {name} disk (disk.create name) := by
  intro other hother
  refine ⟨update_of_ne hother _ _, fun node hnode => ?_⟩
  exact update_of_ne (nodeFor_ne hother hnode) _ _

theorem remove_sameBut : SameBut {name} disk (disk.remove name) := by
  intro other hother
  exact ⟨remove_entry_of_ne hother, fun _ _ => rfl⟩

theorem exists_rename (h : disk.entry source = some node) (target : Name) :
    ∃ after, disk.rename source target = some after := by
  unfold rename
  split
  · next hnone => exact nomatch hnone.symm.trans h
  · exact ⟨_, rfl⟩

theorem rename_eq_some (h : disk.rename source target = some after) :
    ∃ node, disk.entry source = some node ∧ after.entry target = some node ∧
      after.body = disk.body ∧ SameBut {source, target} disk after := by
  unfold rename at h
  split at h
  · cases h
  · next node hnode =>
      cases h
      refine ⟨node, hnode, update_self .., rfl, fun other hother => ⟨?_, fun _ _ => rfl⟩⟩
      simp only [Set.mem_insert_iff, Set.mem_singleton_iff, not_or] at hother
      exact (update_of_ne hother.2 _ _).trans (remove_entry_of_ne hother.1)

end Changes

end Disk

end PbsGui.Lib
