import Mathlib.Logic.Relation
import Mathlib.Order.WellFounded

/-!
# Invariants and progress of transition systems

A run of a step relation is its reflexive transitive closure (`Relation.ReflTransGen`).

* A property that holds at the start and is kept by every step holds in every
  reachable state;
* a system whose steps lower a natural number, and which can always step unless
  it has finished, finishes on every schedule.
-/

namespace PbsGui.Lib.Transition

open Relation

variable {State : Type*} {step : State → State → Prop} {invariant : State → Prop}

/-- The invariant rule: what holds at the start and is kept by each step holds
in every reachable state. -/
theorem invariant_of_reachable {start current : State} (hstart : invariant start)
    (hstep : ∀ before after, invariant before → step before after → invariant after)
    (hreach : ReflTransGen step start current) :
    invariant current := by
  induction hreach with
  | refl => exact hstart
  | tail _ hlast ih => exact hstep _ _ ih hlast

/-- A run that ends outside of what no step leaves was outside of it all along. -/
theorem avoids_of_stays (bad : State → Prop) {start current : State}
    (hstays : ∀ before after, step before after → bad before → bad after) (hgood : ¬ bad current)
    (hreach : ReflTransGen step start current) :
    ReflTransGen (fun before after => step before after ∧ ¬ bad after) start current := by
  induction hreach with
  | refl => exact .refl
  | tail _ hlast ih => exact (ih fun hbad => hgood (hstays _ _ hlast hbad)).tail ⟨hlast, hgood⟩

/-- Every run from `state` is finite. -/
def Terminates (step : State → State → Prop) (state : State) : Prop :=
  Acc (fun after before => step before after) state

theorem terminates_of_measure (measure : State → Nat)
    (hkeep : ∀ before after, invariant before → step before after → invariant after)
    (hlower : ∀ before after, invariant before → step before after → measure after < measure before)
    {state : State} (hstate : invariant state) :
    Terminates step state := by
  induction hbound : measure state using Nat.strong_induction_on generalizing state with
  | _ bound ih =>
    constructor
    intro after hafter
    have hless : measure after < bound := by
      rw [← hbound]
      exact hlower _ _ hstate hafter
    exact ih _ hless (hkeep _ _ hstate hafter) rfl

/-- When every run is finite and only finished states are stuck, a finished
state can be reached. -/
theorem exists_finished_of_terminates {finished : State → Prop}
    (hkeep : ∀ before after, invariant before → step before after → invariant after)
    (hprog : ∀ state, invariant state → ¬ finished state → ∃ after, step state after)
    {state : State} (hstate : invariant state) (hterminates : Terminates step state) :
    ∃ final, ReflTransGen step state final ∧ finished final := by
  induction hterminates with
  | intro current _ ih =>
    by_cases hfin : finished current
    · exact ⟨current, ReflTransGen.refl, hfin⟩
    · obtain ⟨after, hafter⟩ := hprog current hstate hfin
      obtain ⟨final, hreach, hfinal⟩ := ih after hafter (hkeep _ _ hstate hafter)
      exact ⟨final, ReflTransGen.head hafter hreach, hfinal⟩

theorem mem_middle {Party : Type*} {left right : List Party} {party other : Party} :
    other ∈ left ++ party :: right ↔ other = party ∨ other ∈ left ++ right :=
  List.perm_middle.mem_iff.trans List.mem_cons

theorem forall_mem_middle {Party : Type*} {holds : Party → Prop} {left right : List Party}
    {party : Party} : (∀ other ∈ left ++ party :: right, holds other) ↔
      holds party ∧ ∀ other ∈ left ++ right, holds other := by
  simp only [mem_middle, forall_eq_or_imp]

end PbsGui.Lib.Transition
