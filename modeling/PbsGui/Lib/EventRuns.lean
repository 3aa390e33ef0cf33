import Mathlib.Data.List.Basic

/-!
# Runs as folds over events

A system whose steps are decided by the event that happens runs as a fold over a list of
events.  Rules for such runs: the invariant rule, also for steps that can fail, the comparison
with the run from which some of the events are left out, and what comes before an event.
-/

namespace PbsGui.Lib

open List
theorem except_bind_eq_ok {ε α β : Type} {first : Except ε α} {next : α → Except ε β} {result : β} :
    (first >>= next) = .ok result ↔ ∃ value, first = .ok value ∧ next value = .ok result := by
  cases first with
  | error =>
    constructor
    · intro h
      cases h
    · rintro ⟨value, hvalue, -⟩
      cases hvalue
  | ok value =>
    constructor
    · exact fun h => ⟨value, rfl, h⟩
    · rintro ⟨_, hvalue, h⟩
      cases hvalue
      exact h

namespace EventRuns

variable {State Event : Type*} {step : State → Event → State} {allowed : Event → Prop}

theorem invariant_of_foldl {invariant : State → Prop}
    (hstep : ∀ state event, allowed event → invariant state → invariant (step state event))
    {events : List Event} (hevs : ∀ event ∈ events, allowed event) {start : State}
    (hstart : invariant start) : invariant (events.foldl step start) := by
  induction events generalizing start with
  | nil => exact hstart
  | cons event rest ih =>
    refine ih (forall_mem_cons.mp hevs).2 ?_
    exact hstep start event (hevs event mem_cons_self) hstart

/-- A run whose steps can fail, and that does not: what each step that succeeds keeps holds
at the end, of all the events there were. -/
theorem invariant_of_foldlM {Error State Event : Type} {step : State → Event → Except Error State}
    {invariant : List Event → State → Prop}
    (hstep : ∀ past state event after, invariant past state → step state event = .ok after →
      invariant (past ++ [event]) after)
    {past events : List Event} {start last : State} (hstart : invariant past start)
    (hrun : events.foldlM step start = .ok last) : invariant (past ++ events) last := by
  induction events generalizing past start with
  | nil =>
    cases hrun
    rw [append_nil]
    exact hstart
  | cons event rest ih =>
    rw [foldlM_cons] at hrun
    obtain ⟨after, hfirst, hrest⟩ := except_bind_eq_ok.mp hrun
    rw [append_cons]
    exact ih (hstep past start event after hstart hfirst) hrest

/-- A relation between the states of two runs that is kept when an event happens in both,
and when an event that is left out happens in the first alone, holds at their end. -/
theorem related_of_filter {keep : Event → Bool} {related : State → State → Prop}
    (hkept : ∀ left right event, allowed event → keep event = true → related left right →
      related (step left event) (step right event))
    (hleft : ∀ left right event, allowed event → keep event = false → related left right →
      related (step left event) right)
    {events : List Event} (hevs : ∀ event ∈ events, allowed event) {left right : State}
    (hstart : related left right) :
    related (events.foldl step left) ((events.filter keep).foldl step right) := by
  induction events generalizing left right with
  | nil => exact hstart
  | cons event rest ih =>
    have hevent := hevs event mem_cons_self
    have hrest : ∀ other ∈ rest, allowed other := (forall_mem_cons.mp hevs).2
    cases hkeep : keep event with
    | true =>
      rw [filter_cons_of_pos hkeep]
      exact ih hrest (hkept left right event hevent hkeep hstart)
    | false =>
      rw [filter_cons_of_neg (by simp [hkeep])]
      exact ih hrest (hleft left right event hevent hkeep hstart)

/-- A run over events, each of which is right about the state it happens in. -/
def Replay (step : State → Event → State) (right : State → Event → Prop) :
    State → List Event → State → Prop
  | start, [], last => start = last
  | start, event :: rest, last => right start event ∧ Replay step right (step start event) rest last

namespace Replay

variable {right : State → Event → Prop} {start middle last : State} {events more : List Event}

theorem nil : Replay step right start [] start := rfl

theorem append (h : Replay step right start events middle)
    (hmore : Replay step right middle more last) : Replay step right start (events ++ more) last := by
  induction events generalizing start with
  | nil =>
    obtain rfl : start = middle := h
    exact hmore
  | cons event rest ih => exact ⟨h.1, ih h.2⟩

theorem last_eq (h : Replay step right start events last) : last = events.foldl step start := by
  induction events generalizing start with
  | nil => exact Eq.symm h
  | cons event rest ih => exact ih h.2

theorem right_of_split {event : Event} {before later : List Event}
    (h : Replay step right start (before ++ event :: later) last) :
    right (before.foldl step start) event := by
  induction before generalizing start with
  | nil => exact h.1
  | cons first rest ih => exact ih h.2

end Replay

theorem subset_before {front back before later : List Event} {event : Event}
    (hsplit : front ++ back = before ++ event :: later) (hevent : event ∉ front) :
    front ⊆ before := by
  rcases append_eq_append_iff.mp hsplit with ⟨more, rfl, -⟩ | ⟨more, rfl, hmore⟩
  · exact subset_append_left _ _
  · cases more with
    | nil =>
      rw [append_nil]
      exact List.Subset.refl _
    | cons =>
      obtain ⟨rfl, -⟩ := cons.inj hmore
      exact absurd (mem_append_right _ mem_cons_self) hevent

end EventRuns
end PbsGui.Lib
