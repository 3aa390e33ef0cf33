import PbsGui.Lib.Transition

/-!
# Callers that check a shared value and act on it later

Each of several callers checks a shared value once and later, in a step of its own, changes the
value, which others may have changed by then.  If none of the changes in between disturbs the
check, an invariant that the check protects is kept.
-/

namespace PbsGui.Lib.CheckThenAct

open Relation List

variable {State Call : Type*}

/-- What a call looks for, and what it does. -/
structure Protocol (State Call : Type*) where
  check : Call → State → Prop
  act : Call → State → State

/-- The value and the calls so far. -/
structure Shared (State Call : Type*) where
  value : State
  /-- The calls that have acted, newest first. -/
  done : List Call
  /-- The calls that have passed their check and have yet to act, each with the calls
  that acted since, newest first. -/
  checked : List (Call × List Call)

namespace Shared

def start (value : State) : Shared State Call :=
  { value := value, done := [], checked := [] }

def check (shared : Shared State Call) (call : Call) : Shared State Call :=
  { shared with checked := (call, []) :: shared.checked }

/-- A call acts, and those in `rest` have yet to. -/
def act (protocol : Protocol State Call) (shared : Shared State Call) (call : Call)
    (rest : List (Call × List Call)) : Shared State Call where
  value := protocol.act call shared.value
  done := call :: shared.done
  checked := rest.map fun entry => (entry.1, call :: entry.2)

end Shared

/-- One step of one call; `allow` is what is assumed of a call that acts and of those
that acted since its check. -/
inductive Step (protocol : Protocol State Call) (allow : Call → List Call → Prop)
    (shared : Shared State Call) : Shared State Call → Prop
  | check {call : Call} (h : protocol.check call shared.value) :
      Step protocol allow shared (shared.check call)
  | act {before after : List (Call × List Call)} {call : Call} {since : List Call}
      (h : shared.checked = before ++ (call, since) :: after) (hallow : allow call since) :
      Step protocol allow shared (shared.act protocol call (before ++ after))
  /-- A call gives up after its check. -/
  | abandon {before after : List (Call × List Call)} {entry : Call × List Call}
      (h : shared.checked = before ++ entry :: after) :
      Step protocol allow shared { shared with checked := before ++ after }

def Reaches (protocol : Protocol State Call) (allow : Call → List Call → Prop) :
    Shared State Call → Shared State Call → Prop :=
  ReflTransGen (Step protocol allow)

theorem Reaches.done_subset {protocol : Protocol State Call} {allow : Call → List Call → Prop}
    {shared next : Shared State Call} (h : Reaches protocol allow shared next) :
    shared.done ⊆ next.done := by
  induction h with
  | refl => exact fun _ hmem => hmem
  | tail _ hstep ih =>
    cases hstep with
    | check | abandon => exact ih
    | act => exact fun _ hmem => mem_cons_of_mem _ (ih hmem)

/-- Where the invariant holds, `later` leaves the check of `call` as it is. -/
def Harmless (protocol : Protocol State Call) (invariant : State → List Call → Prop)
    (call later : Call) : Prop :=
  ∀ value done, invariant value done → protocol.check call value →
    protocol.check call (protocol.act later value)

section Invariant

variable {protocol : Protocol State Call} {allow : Call → List Call → Prop}
  {invariant : State → List Call → Prop} {shared next : Shared State Call}

/-- The invariant holds, and so does the check of every call that was not disturbed. -/
structure Inv (protocol : Protocol State Call) (invariant : State → List Call → Prop)
    (shared : Shared State Call) : Prop where
  holds : invariant shared.value shared.done
  fresh : ∀ entry ∈ shared.checked,
    (∀ later ∈ entry.2, Harmless protocol invariant entry.1 later) →
      protocol.check entry.1 shared.value

theorem Inv.check (h : Inv protocol invariant shared) {call : Call}
    (hcheck : protocol.check call shared.value) : Inv protocol invariant (shared.check call) := by
  refine ⟨h.holds, fun entry hentry hharmless => ?_⟩
  rcases mem_cons.mp hentry with rfl | hold
  · exact hcheck
  · exact h.fresh entry hold hharmless

variable {rest : List (Call × List Call)}

/-- A call that acts becomes the newest of those that every other checked call has to
bear with. -/
theorem Inv.act (h : Inv protocol invariant shared) {call : Call} (hrest : rest ⊆ shared.checked)
    (hact : invariant (protocol.act call shared.value) (call :: shared.done)) :
    Inv protocol invariant (shared.act protocol call rest) := by
  refine ⟨hact, fun entry hentry hharmless => ?_⟩
  obtain ⟨old, hold, rfl⟩ := mem_map.mp hentry
  have hcheck : protocol.check old.1 shared.value :=
    h.fresh old (hrest hold) (forall_mem_cons.mp hharmless).2
  exact hharmless call mem_cons_self _ _ h.holds hcheck

theorem Inv.subset (h : Inv protocol invariant shared) (hrest : rest ⊆ shared.checked) :
    Inv protocol invariant { shared with checked := rest } :=
  ⟨h.holds, fun entry hentry => h.fresh entry (hrest hentry)⟩

theorem append_subset {before after : List (Call × List Call)} {entry : Call × List Call} :
    before ++ after ⊆ before ++ entry :: after :=
  List.append_subset.mpr ⟨List.subset_append_left _ _,
    fun _ hmem => mem_append_right _ (mem_cons_of_mem _ hmem)⟩

theorem Inv.step
    (hact : ∀ call since value done, invariant value done → allow call since →
      ((∀ later ∈ since, Harmless protocol invariant call later) → protocol.check call value) →
      invariant (protocol.act call value) (call :: done))
    (h : Inv protocol invariant shared) (hstep : Step protocol allow shared next) :
    Inv protocol invariant next := by
  cases hstep with
  | check hcheck => exact h.check hcheck
  | @act before after call since hchecked hallow =>
    have hmem : (call, since) ∈ shared.checked := hchecked ▸ mem_append_right _ mem_cons_self
    refine h.act (hchecked ▸ append_subset) ?_
    exact hact call since _ _ h.holds hallow (h.fresh _ hmem)
  | abandon hchecked => exact h.subset (hchecked ▸ append_subset)

/-- The rule for callers that check and act later: what holds at the start holds in
every state, if each action keeps it.  For that the check of an undisturbed call may
be used. -/
theorem invariant_of_reaches {start : State} (hstart : invariant start [])
    (hact : ∀ call since value done, invariant value done → allow call since →
      ((∀ later ∈ since, Harmless protocol invariant call later) → protocol.check call value) →
      invariant (protocol.act call value) (call :: done))
    (hreach : Reaches protocol allow (.start start) shared) :
    invariant shared.value shared.done := by
  have hinv : Inv protocol invariant shared :=
    Transition.invariant_of_reachable ⟨hstart, fun _ hmem => absurd hmem not_mem_nil⟩
      (fun _ _ h hstep => h.step hact hstep) hreach
  exact hinv.holds

end Invariant

end PbsGui.Lib.CheckThenAct
