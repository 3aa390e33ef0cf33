import Mathlib.Data.List.Basic
import PbsGui.Lib.Transition

/-!
# A shared value that is changed and then written back

Several callers share a value in memory and a copy of it on disk.  A call is two
atomic steps: it changes the value, and later it writes the value as it is then.
Between its two steps other calls may take theirs.  No change is lost, and the changes made
before a call wrote stay on disk from then on.
-/

namespace PbsGui.Lib

open List

variable {State Change Disk : Type*}

/-- The value and its copy, with the calls so far. -/
structure Writeback (State Change Disk : Type*) where
  memory : State
  disk : Disk
  /-- Every change made, oldest first. -/
  changes : List Change
  /-- The positions of the changes whose call has not written yet. -/
  pending : List Nat
  /-- For each call that has returned, the position of its change and how many
  changes had been made when it wrote. -/
  returned : List (Nat × Nat)

namespace Writeback

def start (memory : State) (disk : Disk) : Writeback State Change Disk :=
  { memory := memory, disk := disk, changes := [], pending := [], returned := [] }

def replay (apply : Change → State → State) (start : State) (changes : List Change) : State :=
  changes.foldl (fun state change => apply change state) start

/-- One step of one call. -/
inductive Step (apply : Change → State → State) (write : State → Disk → Disk → Prop)
    (shared : Writeback State Change Disk) : Writeback State Change Disk → Prop
  | change (change : Change) :
      Step apply write shared
        { shared with
          memory := apply change shared.memory
          changes := shared.changes ++ [change]
          pending := shared.pending ++ [shared.changes.length] }
  | write {position : Nat} {disk : Disk} (hpending : position ∈ shared.pending)
      (hwrite : write shared.memory shared.disk disk) :
      Step apply write shared
        { shared with
          disk := disk
          pending := shared.pending.erase position
          returned := (position, shared.changes.length) :: shared.returned }

/-- What holds in every state: `written` counts the changes the disk has. -/
structure Inv (apply : Change → State → State) (holds : Disk → State → Prop) (first : State)
    (shared : Writeback State Change Disk) (written : Nat) : Prop where
  memory : shared.memory = replay apply first shared.changes
  positions : ∀ position ∈ shared.pending, position < shared.changes.length
  bound : written ≤ shared.changes.length
  disk : holds shared.disk (replay apply first (shared.changes.take written))
  unwritten : ∀ position, written ≤ position → position < shared.changes.length →
    position ∈ shared.pending
  returned : ∀ call ∈ shared.returned, call.1 < call.2 ∧ call.2 ≤ written

section Run

variable {apply : Change → State → State} {write : State → Disk → Disk → Prop}
  {holds : Disk → State → Prop} {first : State} {disk : Disk}
  {shared after : Writeback State Change Disk} {written : Nat}

theorem Inv.initial (h : holds disk first) :
    Inv apply holds first (start first disk : Writeback State Change Disk) 0 where
  memory := rfl
  positions := by simp [start]
  bound := Nat.zero_le _
  disk := by simpa [start, replay] using h
  unwritten := by simp [start]
  returned := by simp [start]

theorem Inv.change (h : Inv apply holds first shared written) (change : Change) :
    Inv apply holds first
      { shared with
        memory := apply change shared.memory
        changes := shared.changes ++ [change]
        pending := shared.pending ++ [shared.changes.length] } written := by
  constructor
  · show apply change shared.memory = _
    rw [h.memory, replay, replay, foldl_concat]
  · intro position hposition
    rw [length_append, length_singleton]
    rcases mem_append.mp hposition with hold | hnew
    · have := h.positions position hold
      omega
    · rw [mem_singleton.mp hnew]
      omega
  · have := h.bound
    rw [length_append]
    omega
  · show holds shared.disk (replay apply first ((shared.changes ++ [change]).take written))
    rw [take_append_of_le_length h.bound]
    exact h.disk
  · intro position hlow hhigh
    rw [length_append, length_singleton] at hhigh
    by_cases hlast : position = shared.changes.length
    · exact mem_append_right _ (by simp [hlast])
    · exact mem_append_left _ (h.unwritten position hlow (by omega))
  · exact h.returned

theorem Inv.writeBack (h : Inv apply holds first shared written) {position : Nat} {disk : Disk}
    (hpend : position ∈ shared.pending) (hholds : holds disk shared.memory) :
    Inv apply holds first
      { shared with
        disk := disk
        pending := shared.pending.erase position
        returned := (position, shared.changes.length) :: shared.returned }
      shared.changes.length := by
  constructor
  · exact h.memory
  · intro other hother
    exact h.positions other (mem_of_mem_erase hother)
  · exact le_refl _
  · show holds disk (replay apply first (shared.changes.take shared.changes.length))
    rw [take_length, ← h.memory]
    exact hholds
  · intro other hlow hhigh
    have : other < shared.changes.length := hhigh
    omega
  · intro call hcall
    rcases mem_cons.mp hcall with rfl | hold
    · exact ⟨h.positions position hpend, le_refl _⟩
    · obtain ⟨hlt, hle⟩ := h.returned call hold
      exact ⟨hlt, hle.trans h.bound⟩

theorem Inv.step (hholds : ∀ state before after, write state before after → holds after state)
    (h : Inv apply holds first shared written) (hstep : Step apply write shared after) :
    ∃ written', Inv apply holds first after written' := by
  cases hstep with
  | change change => exact ⟨written, h.change change⟩
  | write hpend hwrite => exact ⟨shared.changes.length, h.writeBack hpend (hholds _ _ _ hwrite)⟩

theorem Inv.of_reaches (hholds : ∀ state before after, write state before after → holds after state)
    (hstart : holds disk first)
    (hreach : Relation.ReflTransGen (Step apply write) (start first disk) shared) :
    ∃ written, Inv apply holds first shared written := by
  refine @Transition.invariant_of_reachable _ _
    (fun state => ∃ written, Inv apply holds first state written) _ _ ?_ ?_ hreach
  · exact ⟨0, Inv.initial hstart⟩
  · rintro before after ⟨written, hinv⟩ hstep
    exact hinv.step hholds hstep

theorem Inv.holds_memory (h : Inv apply holds first shared written) (hidle : shared.pending = []) :
    holds shared.disk shared.memory := by
  have hall : written = shared.changes.length := by
    by_contra hne
    have hlt : written < shared.changes.length := lt_of_le_of_ne h.bound hne
    have hmem := h.unwritten written (le_refl _) hlt
    rw [hidle] at hmem
    cases hmem
  have hdisk := h.disk
  rwa [hall, take_length, ← h.memory] at hdisk

end Run

end Writeback
end PbsGui.Lib
