import Mathlib.Algebra.GroupWithZero.Nat
import Mathlib.Data.List.Forall2
import Mathlib.Logic.Relation

/-!
# A window of concurrent fetches with ordered delivery

A producer fetches a list of items through a window: up to `width` fetches run
at once and complete in any order, but the producer awaits them in the order of
the list and hands each value to a bounded channel.  The first failure ends it.

The window refines `fetchAll`, the sequential loop.  What the receiver has taken is always a
beginning of the values of `fetchAll`, and a producer that ends with the channel empty ends as
`fetchAll` does.  Every step lowers `Window.weight`, and a producer that has not ended can
always step unless the channel holds something to take.
-/

namespace PbsGui.Lib

open List

variable {Item Value Error : Type*}

/-- The sequential loop: the values before the first failure, and the failure. -/
def fetchAll (fetch : Item → Except Error Value) : List Item → List Value × Option Error
  | [] => ([], none)
  | item :: rest =>
    match fetch item with
    | .error error => ([], some error)
    | .ok value => (value :: (fetchAll fetch rest).1, (fetchAll fetch rest).2)

variable {fetch : Item → Except Error Value}

theorem fetchAll_append {done : List Item} {values : List Value}
    (h : List.Forall₂ (fun item value => fetch item = .ok value) done values) (rest : List Item) :
    fetchAll fetch (done ++ rest) =
      (values ++ (fetchAll fetch rest).1, (fetchAll fetch rest).2) := by
  induction h with
  | nil => rfl
  | cons hfetch _ ih => simp [fetchAll, hfetch, ih]

theorem fetchAll_error_iff {items : List Item} :
    (∃ error, (fetchAll fetch items).2 = some error) ↔
      ∃ item ∈ items, ∃ error, fetch item = .error error := by
  induction items with
  | nil => simp [fetchAll]
  | cons item rest ih =>
    cases hfetch : fetch item with
    | error => simp [fetchAll, hfetch]
    | ok => simp [fetchAll, hfetch, ih]

/-- One fetch of the window; `result` is empty while it runs. -/
structure Slot (Item Value Error : Type*) where
  item : Item
  result : Option (Except Error Value)

/-- Where the producer stands: about to await the first fetch of the window,
holding a value for the channel, or ended. -/
inductive Producer (Value Error : Type*)
  | pulling
  | sending (value : Value)
  | ended (outcome : Except Error Unit)

def Producer.held : Producer Value Error → List Value
  | .sending value => [value]
  | _ => []

/-- The producer, its window, and the channel with its receiver.  `taken` lists
what the receiver has taken; no step reads it. -/
structure Window (Item Value Error : Type*) where
  rest : List Item
  inflight : List (Slot Item Value Error)
  producer : Producer Value Error
  channel : List Value
  taken : List Value
  receiverGone : Bool

namespace Window

/-- A window over the first `width` items. -/
def start (width : Nat) (items : List Item) : Window Item Value Error :=
  { rest := items.drop width
    inflight := (items.take width).map fun item => ⟨item, none⟩
    producer := .pulling
    channel := []
    taken := []
    receiverGone := false }

/-- One step of the producer or of a fetch. -/
inductive Step (fetch : Item → Except Error Value) (width : Nat)
    (window : Window Item Value Error) : Window Item Value Error → Prop
  | completed {left right : List (Slot Item Value Error)} {item : Item}
      (hinflight : window.inflight = left ++ ⟨item, none⟩ :: right) :
      Step fetch width window
        { window with inflight := left ++ ⟨item, some (fetch item)⟩ :: right }
  | awaited {item : Item} {value : Value} {others : List (Slot Item Value Error)}
      (hproducer : window.producer = .pulling)
      (hinflight : window.inflight = ⟨item, some (.ok value)⟩ :: others) :
      Step fetch width window
        { window with inflight := others, producer := .sending value }
  | failed {item : Item} {error : Error} {others : List (Slot Item Value Error)}
      (hproducer : window.producer = .pulling)
      (hinflight : window.inflight = ⟨item, some (.error error)⟩ :: others) :
      Step fetch width window { window with producer := .ended (.error error) }
  | sentMore {value : Value} {item : Item} {rest : List Item}
      (hproducer : window.producer = .sending value)
      (hroom : window.channel.length < width) (hreceiver : window.receiverGone = false)
      (hrest : window.rest = item :: rest) :
      Step fetch width window
        { window with
          rest := rest
          inflight := window.inflight ++ [⟨item, none⟩]
          producer := .pulling
          channel := window.channel ++ [value] }
  | sentLast {value : Value}
      (hproducer : window.producer = .sending value)
      (hroom : window.channel.length < width) (hreceiver : window.receiverGone = false)
      (hrest : window.rest = []) :
      Step fetch width window
        { window with producer := .pulling, channel := window.channel ++ [value] }
  | stopped {value : Value}
      (hproducer : window.producer = .sending value) (hreceiver : window.receiverGone = true) :
      Step fetch width window { window with producer := .ended (.ok ()) }
  | exhausted
      (hproducer : window.producer = .pulling) (hinflight : window.inflight = []) :
      Step fetch width window { window with producer := .ended (.ok ()) }

/-- The receiver takes the first value of the channel, which leaves `more`. -/
def take (window : Window Item Value Error) (value : Value) (more : List Value) :
    Window Item Value Error :=
  { window with channel := more, taken := window.taken ++ [value] }

/-- The receiver is dropped; what the channel holds is lost. -/
def dropReceiver (window : Window Item Value Error) : Window Item Value Error :=
  { window with receiverGone := true }

/-! ### The window refines the loop -/

/-- While the receiver listens, values come out in the order of the items, and
the window is kept full. -/
structure Ordered (fetch : Item → Except Error Value) (width : Nat) (items : List Item)
    (window : Window Item Value Error) : Prop where
  order : ∃ done, items = done ++ window.inflight.map Slot.item ++ window.rest ∧
    List.Forall₂ (fun item value => fetch item = .ok value) done
      (window.taken ++ window.channel ++ window.producer.held)
  results : ∀ slot ∈ window.inflight, ∀ result, slot.result = some result →
    result = fetch slot.item
  full : window.rest ≠ [] → (∀ outcome, window.producer ≠ .ended outcome) →
    window.inflight.length + window.producer.held.length = width
  complete : window.producer = .ended (.ok ()) → window.inflight = [] ∧ window.rest = []
  failure : ∀ error, window.producer = .ended (.error error) →
    ∃ slot others, window.inflight = slot :: others ∧ fetch slot.item = .error error
  listening : window.receiverGone = false

section Refinement

variable {fetch : Item → Except Error Value} {width : Nat} {items : List Item}
  {window after : Window Item Value Error}

theorem Ordered.start (fetch : Item → Except Error Value) (width : Nat) (items : List Item) :
    (Window.start width items).Ordered fetch width items where
  order := ⟨[], by simp [Window.start, Function.comp_def], by simp [Window.start, Producer.held]⟩
  results slot hslot result hres := by
    obtain ⟨item, -, rfl⟩ := mem_map.mp hslot
    exact nomatch hres
  full hrest _ := by
    have hlong : width < items.length := by
      by_contra hshort
      exact hrest (drop_of_length_le (by omega))
    simp only [Window.start, Producer.held, length_map, length_take, length_nil]
    omega
  complete h := nomatch h
  failure error h := nomatch h
  listening := rfl

variable {item : Item}

theorem Ordered.completed (h : window.Ordered fetch width items)
    {left right : List (Slot Item Value Error)}
    (hfly : window.inflight = left ++ ⟨item, none⟩ :: right) :
    Ordered fetch width items
      { window with inflight := left ++ ⟨item, some (fetch item)⟩ :: right } := by
  obtain ⟨done, hitems, hvals⟩ := h.order
  refine ⟨⟨done, ?_, hvals⟩, ?_, ?_, ?_, ?_, h.listening⟩
  · rw [hitems, hfly]
    simp
  · intro slot hslot result hres
    simp only [mem_append, mem_cons] at hslot
    rcases hslot with hleft | rfl | hright
    · exact h.results slot (by simp [hfly, hleft]) result hres
    · exact (Option.some.inj hres).symm
    · exact h.results slot (by simp [hfly, hright]) result hres
  · intro hrest hrun
    have hfull := h.full hrest hrun
    rw [hfly] at hfull
    simpa using hfull
  · intro hended
    have hnone := (h.complete hended).1
    rw [hfly] at hnone
    simp at hnone
  -- The failed slot is the oldest one, which may be the one completed just now.
  · intro error hended
    obtain ⟨slot, others, hhead, hfetch⟩ := h.failure error hended
    rw [hfly] at hhead
    cases left with
    | nil =>
      cases hhead
      exact ⟨_, _, rfl, hfetch⟩
    | cons first =>
      obtain ⟨rfl, rfl⟩ := cons.inj hhead
      exact ⟨first, _, rfl, hfetch⟩

variable {value : Value} {others : List (Slot Item Value Error)}

theorem Ordered.awaited (h : window.Ordered fetch width items) (hprod : window.producer = .pulling)
    (hfly : window.inflight = ⟨item, some (.ok value)⟩ :: others) :
    Ordered fetch width items { window with inflight := others, producer := .sending value } := by
  obtain ⟨done, hitems, hvals⟩ := h.order
  have hfetch : fetch item = .ok value :=
    (h.results ⟨item, some (.ok value)⟩ (by simp [hfly]) _ rfl).symm
  rw [hprod] at hvals
  refine ⟨⟨done ++ [item], ?_, ?_⟩, ?_, ?_, nofun, nofun, h.listening⟩
  · rw [hitems, hfly]
    simp
  · have hlast : List.Forall₂ (fun item value => fetch item = .ok value) [item] [value] :=
      .cons hfetch .nil
    simpa [Producer.held] using rel_append hvals hlast
  · intro slot hslot
    exact h.results slot (by simp [hfly, hslot])
  · intro hrest _
    have hfull := h.full hrest (by simp [hprod])
    rw [hfly, hprod] at hfull
    simpa [Producer.held] using hfull

theorem Ordered.failed (h : window.Ordered fetch width items) {error : Error}
    (hprod : window.producer = .pulling)
    (hfly : window.inflight = ⟨item, some (.error error)⟩ :: others) :
    Ordered fetch width items { window with producer := .ended (.error error) } := by
  obtain ⟨done, hitems, hvals⟩ := h.order
  have hfetch : fetch item = .error error :=
    (h.results ⟨item, some (.error error)⟩ (by simp [hfly]) _ rfl).symm
  rw [hprod] at hvals
  refine ⟨⟨done, hitems, hvals⟩, h.results, fun _ hrun => absurd rfl (hrun _),
    nofun, fun error' hended => ?_, h.listening⟩
  obtain rfl : error = error' := by simpa using hended
  exact ⟨_, _, hfly, hfetch⟩

theorem Ordered.sentMore (h : window.Ordered fetch width items) {rest : List Item}
    (hprod : window.producer = .sending value) (hrest : window.rest = item :: rest) :
    Ordered fetch width items
      { window with
        rest := rest
        inflight := window.inflight ++ [⟨item, none⟩]
        producer := .pulling
        channel := window.channel ++ [value] } := by
  obtain ⟨done, hitems, hvals⟩ := h.order
  rw [hprod] at hvals
  refine ⟨⟨done, ?_, ?_⟩, ?_, ?_, nofun, nofun, h.listening⟩
  · rw [hitems, hrest]
    simp
  · simpa [Producer.held] using hvals
  · intro slot hslot result hres
    rcases mem_append.mp hslot with hold | hnew
    · exact h.results slot hold result hres
    · rw [mem_singleton.mp hnew] at hres
      exact nomatch hres
  · intro _ _
    have hfull := h.full (by simp [hrest]) (by simp [hprod])
    rw [hprod] at hfull
    simpa [Producer.held] using hfull

theorem Ordered.exhausted (hwidth : 0 < width) (h : window.Ordered fetch width items)
    (hprod : window.producer = .pulling) (hfly : window.inflight = []) :
    Ordered fetch width items { window with producer := .ended (.ok ()) } := by
  obtain ⟨done, hitems, hvals⟩ := h.order
  rw [hprod] at hvals
  refine ⟨⟨done, hitems, hvals⟩, h.results, fun _ hrun => absurd rfl (hrun _),
    fun _ => ⟨hfly, ?_⟩, nofun, h.listening⟩
  -- An empty window with items left would have room for a fetch, and the window is kept full.
  by_contra hmore
  have hfull := h.full hmore (by simp [hprod])
  rw [hfly, hprod] at hfull
  simp [Producer.held] at hfull
  omega

theorem Ordered.step (hwidth : 0 < width) (h : window.Ordered fetch width items)
    (hstep : Step fetch width window after) :
    after.Ordered fetch width items := by
  cases hstep with
  | completed hfly => exact h.completed hfly
  | awaited hprod hfly => exact h.awaited hprod hfly
  | failed hprod hfly => exact h.failed hprod hfly
  | sentMore hprod hroom hrecv hrest => exact h.sentMore hprod hrest
  | sentLast hprod hroom hrecv hrest =>
    obtain ⟨done, hitems, hvals⟩ := h.order
    rw [hprod] at hvals
    refine ⟨⟨done, hitems, ?_⟩, h.results, fun hmore => absurd hrest hmore,
      nofun, nofun, h.listening⟩
    simpa [Producer.held] using hvals
  | stopped hprod hrecv =>
    -- The receiver never goes away before the producer has ended.
    rw [h.listening] at hrecv
    exact nomatch hrecv
  | exhausted hprod hfly => exact h.exhausted hwidth hprod hfly

theorem Step.taken_eq (hstep : Step fetch width window after) :
    after.taken = window.taken := by
  cases hstep <;> rfl

variable {outcome : Except Error Unit}

theorem Step.of_ended (hstep : Step fetch width window after)
    (hended : window.producer = .ended outcome) :
    after.producer = .ended outcome ∧ after.channel = window.channel := by
  cases hstep with
  | completed => exact ⟨hended, rfl⟩
  | awaited hprod | failed hprod | sentMore hprod | sentLast hprod
  | stopped hprod | exhausted hprod => exact nomatch hprod.symm.trans hended

theorem Ordered.take {more : List Value} (h : window.Ordered fetch width items)
    (hchan : window.channel = value :: more) :
    (window.take value more).Ordered fetch width items := by
  obtain ⟨done, hitems, hvals⟩ := h.order
  refine ⟨⟨done, hitems, ?_⟩, h.results, h.full, h.complete, h.failure, h.listening⟩
  rw [hchan] at hvals
  simpa [Window.take] using hvals

/-- What is on its way to the receiver, and what it has, is a beginning of the
sequential values. -/
theorem Ordered.values_prefix (h : window.Ordered fetch width items) :
    window.taken ++ window.channel ++ window.producer.held <+: (fetchAll fetch items).1 := by
  obtain ⟨done, hitems, hvals⟩ := h.order
  rw [hitems, append_assoc done, fetchAll_append hvals]
  exact prefix_append _ _

/-- A producer that has ended with everything taken has done what the sequential
loop does. -/
theorem Ordered.ended (h : window.Ordered fetch width items)
    (hended : window.producer = .ended outcome) (hchan : window.channel = []) :
    fetchAll fetch items = (window.taken, match outcome with
      | .ok () => none
      | .error error => some error) := by
  obtain ⟨done, hitems, hvals⟩ := h.order
  simp only [hchan, hended, Producer.held, append_nil] at hvals
  rw [hitems, append_assoc, fetchAll_append hvals]
  cases outcome with
  | ok =>
    obtain ⟨hfly, hrest⟩ := h.complete hended
    simp [hfly, hrest, fetchAll]
  | error error =>
    obtain ⟨slot, others, hfly, hfetch⟩ := h.failure error hended
    simp [hfly, fetchAll, hfetch]

def slotWeight (slot : Slot Item Value Error) : Nat :=
  match slot.result with
  | none => 4
  | some _ => 3

/-- What is left to do for the producer, apart from its window. -/
def producerWeight : Producer Value Error → Nat
  | .pulling => 1
  | .sending _ => 3
  | .ended _ => 0

/-- What is left to do: each item passes from the list to the window, is
fetched, awaited, sent and taken. -/
def weight (window : Window Item Value Error) : Nat :=
  5 * window.rest.length + (window.inflight.map slotWeight).sum +
    producerWeight window.producer + window.channel.length

theorem weight_step (hstep : Step fetch width window after) :
    after.weight < window.weight := by
  cases hstep with
  | completed hfly =>
    simp only [weight, hfly, map_append, map_cons, sum_append, sum_cons, slotWeight]
    omega
  | awaited hprod hfly =>
    simp only [weight, hprod, hfly, map_cons, sum_cons, slotWeight, producerWeight]
    omega
  | failed hprod | stopped hprod | exhausted hprod =>
    simp only [weight, hprod, producerWeight]
    omega
  | sentMore hprod hroom hrecv hrest =>
    simp only [weight, hprod, hrest, producerWeight, map_append, map_cons, map_nil, sum_append,
      sum_cons, sum_nil, slotWeight, length_cons, length_append, length_nil]
    omega
  | sentLast hprod =>
    simp only [weight, hprod, producerWeight, length_append, length_cons, length_nil]
    omega

theorem weight_take {more : List Value} (hchan : window.channel = value :: more) :
    (window.take value more).weight < window.weight := by
  simp only [weight, take, hchan, length_cons]
  omega

theorem exists_step (fetch : Item → Except Error Value) (hwidth : 0 < width)
    (hlistening : window.receiverGone = false)
    (hchan : window.channel = []) (hrun : ∀ outcome, window.producer ≠ .ended outcome) :
    ∃ after, Step fetch width window after := by
  cases hprod : window.producer with
  | ended outcome => exact absurd hprod (hrun outcome)
  | sending =>
    have hroom : window.channel.length < width := by simpa [hchan] using hwidth
    cases hrest : window.rest with
    | nil => exact ⟨_, .sentLast hprod hroom hlistening hrest⟩
    | cons => exact ⟨_, .sentMore hprod hroom hlistening hrest⟩
  | pulling =>
    cases hfly : window.inflight with
    | nil => exact ⟨_, .exhausted hprod hfly⟩
    | cons slot =>
      obtain ⟨item, result⟩ := slot
      cases result with
      | none => exact ⟨_, .completed (hfly.trans (nil_append _).symm)⟩
      | some result =>
        cases result with
        | ok => exact ⟨_, .awaited hprod hfly⟩
        | error => exact ⟨_, .failed hprod hfly⟩

end Refinement

end Window

end PbsGui.Lib
