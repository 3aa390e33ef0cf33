import Mathlib.Data.List.Induction
import PbsGui.Relay.Interference

/-!
# Slots and the calls that wait behind them

`open_session` removes its slot on each path on which it returns.  A caller that drops the call
takes none of these paths, so the slot of a call that is dropped before anything has arrived
stays in the map.  Where no call is dropped so early, every slot in the map belongs to a call
that has not ended.
-/

namespace PbsGui.Relay

open List Function

/-- The call has put its slot into the map and has neither returned nor been dropped. -/
def CallPhase.Live : CallPhase → Prop
  | sending _ | waiting | failing _ => True
  | absent | looked _ _ | returned _ | cancelled => False

/-- Every slot belongs to a call that has not ended. -/
def Server.SlotsLive (server : Server) : Prop :=
  ∀ sessionId slot, server.sessions sessionId = some slot → (server.calls slot.deliver).phase.Live

section Steps

variable {tokens : AgentTokens} {server after : Server} {id : CallId} {sessionId : String}
  {arrival : SessionSlot → Arrival} {event : ServerEvent}

theorem Server.SlotsLive.settle (h : server.SlotsLive) : (server.settle sessionId arrival).SlotsLive := by
  intro named slot hslot
  rw [Server.settle_sessions] at hslot
  obtain ⟨changed, hcall, -⟩ := @Server.settle_call server sessionId arrival slot.deliver
  rw [hcall]
  by_cases hnamed : named = sessionId
  · rw [hnamed, update_self] at hslot
    cases hslot
  · rw [update_of_ne hnamed] at hslot
    exact h named slot hslot

theorem Server.SlotsLive.moveCall (h : server.SlotsLive) {phase : CallPhase}
    (hphase : phase.Live ∨ ¬ server.Awaited id) : (server.moveCall id phase).SlotsLive := by
  intro named slot hslot
  rw [Server.moveCall, Server.setCall_calls]
  by_cases hid : slot.deliver = id
  · rw [hid, update_self]
    exact hphase.resolve_right fun hnone => hnone ⟨named, slot, hslot, hid⟩
  · rw [update_of_ne hid]
    exact h named slot hslot

theorem SessionsInv.not_awaited (h : SessionsInv tokens server)
    (harr : (server.calls id).arrival ≠ .pending) : ¬ server.Awaited id := by
  rintro ⟨named, slot, hslot, rfl⟩
  exact harr (h.slot named slot hslot).arrival

variable (h : server.SlotsLive)

include h

theorem Server.SlotsLive.openSession (hinv : SessionsInv tokens server) {agent : String}
    (hphase : (server.calls id).phase = .absent) :
    (server.openSession tokens id agent).SlotsLive := by
  intro named slot hslot
  have hid : slot.deliver ≠ id := hinv.deliver_ne_of_early (.inl hphase) hslot
  rw [Server.openSession, Server.setCall_calls, update_of_ne hid]
  exact h named slot hslot

theorem Server.SlotsLive.insertSlot {control : ConnId} {token : String} :
    (server.insertSlot id control token sessionId).SlotsLive := by
  have hsett : (server.settle sessionId fun _ => .dropped).SlotsLive := h.settle
  intro named slot hslot
  simp only [Server.insertSlot, Server.setCall_calls] at hslot ⊢
  by_cases hid : slot.deliver = id
  · rw [hid, update_self]
    trivial
  · rw [update_of_ne hid]
    refine hsett named slot ?_
    change update (server.settle sessionId _).sessions sessionId (some ⟨token, id⟩) named =
      some slot at hslot
    by_cases hnamed : named = sessionId
    · rw [hnamed, update_self] at hslot
      cases hslot
      exact absurd rfl hid
    · rwa [update_of_ne hnamed] at hslot

theorem Server.SlotsLive.failCall (hinv : SessionsInv tokens server) {message : String} :
    (server.failCall id message).SlotsLive := by
  unfold Server.failCall
  dsimp only
  split
  · next own hown =>
      refine h.settle.moveCall (.inr ?_)
      rintro ⟨named, slot, hslot, rfl⟩
      rw [Server.settle_sessions] at hslot
      by_cases hnamed : named = own
      · rw [hnamed, update_self] at hslot
        cases hslot
      · rw [update_of_ne hnamed] at hslot
        exact hnamed (Option.some.inj ((hinv.slot named slot hslot).sessionId.symm.trans hown))
  · next hnone =>
      refine h.moveCall (.inr ?_)
      rintro ⟨named, slot, hslot, rfl⟩
      cases hnone.symm.trans (hinv.slot named slot hslot).sessionId

theorem Server.SlotsLive.pollCall (hinv : SessionsInv tokens server) {elapsed : Bool} :
    (server.pollCall id elapsed).SlotsLive := by
  unfold Server.pollCall
  dsimp only
  split
  · next hsent =>
      have harr : (server.calls id).arrival ≠ .pending := by simp [hsent]
      exact h.moveCall (.inr (hinv.not_awaited harr))
  · exact h.moveCall (.inl trivial)
  · exact h.moveCall (.inl trivial)
  · split
    · exact h.moveCall (.inl trivial)
    · exact h

theorem Server.SlotsLive.connStep {conn : ConnId} (hconn : event.connId = some conn) :
    (server.step tokens event).SlotsLive := by
  by_cases hsett : ∃ sessionId arrival,
      event.Settles conn (server.conns conn).phase sessionId arrival
  · obtain ⟨sessionId, arrival, hsett⟩ := hsett
    obtain ⟨hsessions, hcalls⟩ := @Server.step_settles tokens _ _ _ _ _ hsett
    rw [Server.SlotsLive, hsessions, hcalls]
    exact h.settle
  · obtain ⟨hsessions, hcalls⟩ :=
      @Server.step_sameCalls tokens _ _ _ hconn fun _ _ hone => hsett ⟨_, _, hone⟩
    rw [Server.SlotsLive, hsessions, hcalls]
    exact h

theorem Server.SlotsLive.step (hinv : SessionsInv tokens server)
    (hcancel : ∀ id, event = .cancel id → (server.calls id).arrival ≠ .pending) :
    (server.step tokens event).SlotsLive := by
  cases event with
  | accept conn | firstFrame conn | welcomed conn | controlFrame conn | teardown conn
  | abortWriter conn | writerFailed conn => exact h.connStep rfl
  | openSession =>
    simp only [Server.step]
    split
    · next hphase => exact h.openSession hinv hphase
    · exact h
  | insertSlot =>
    simp only [Server.step]
    split
    · exact h.insertSlot
    · exact h
  | sendStart =>
    simp only [Server.step]
    split
    · split
      · exact h.moveCall (.inl trivial)
      · exact h.moveCall (.inl trivial)
    · exact h
  | poll =>
    simp only [Server.step]
    split
    · exact h.pollCall hinv
    · exact h
  | removeSlot =>
    simp only [Server.step]
    split
    · exact h.failCall hinv
    · exact h
  | cancel call =>
    have hnone : ¬ server.Awaited call := hinv.not_awaited (hcancel call rfl)
    simp only [Server.step]
    split
    · exact h.moveCall (.inr hnone)
    · exact h.moveCall (.inr hnone)
    · exact h

end Steps

/-- **No slot outlives its call.**  In every run in which no call is dropped before
something has arrived for it (a data connection, the report of a failure, or the loss
of its slot), every slot in the map belongs, in every state reached, to a call that
has not ended. -/
theorem slots_live_of_run {tokens : AgentTokens} {events : List ServerEvent}
    (hcancel : ∀ before id later, events = before ++ ServerEvent.cancel id :: later →
      ((Server.new.run tokens before).calls id).arrival ≠ .pending)
    {past later : List ServerEvent} (hpast : events = past ++ later) :
    (Server.new.run tokens past).SlotsLive := by
  have hspared : ∀ before id rest, past = before ++ ServerEvent.cancel id :: rest →
      ((Server.new.run tokens before).calls id).arrival ≠ .pending := by
    rintro before id rest rfl
    exact hcancel before id (rest ++ later) (by rw [hpast, append_assoc, cons_append])
  clear hcancel hpast
  induction past using reverseRecOn with
  | nil => exact nofun
  | append_singleton past event ih =>
    have hbefore : (Server.new.run tokens past).SlotsLive := by
      refine ih fun before id rest hsplit => hspared before id (rest ++ [event]) ?_
      rw [hsplit, append_assoc, cons_append]
    have hinv : SessionsInv tokens (Server.new.run tokens past) := sessionsInv_run .new past
    rw [Server.run, foldl_append]
    refine hbefore.step hinv ?_
    rintro id rfl
    exact hspared past id [] rfl

/-- The agent has opened its data connection for the session. -/
def sampleDelivered : List ServerEvent :=
  Server.samplePast ++
    [ServerEvent.accept 4, .firstFrame 4 (some (.control (.hello "session" "a-token")))]

/-- A call that is dropped after its data connection has arrived leaves no slot. -/
theorem sampleDelivered_live :
    ((Server.new.run Server.sampleTokens (sampleDelivered ++ [ServerEvent.cancel 0])).calls 0).phase =
        .cancelled ∧
      (Server.new.run Server.sampleTokens (sampleDelivered ++ [ServerEvent.cancel 0])).SlotsLive := by
  refine ⟨rfl, @slots_live_of_run _ (sampleDelivered ++ [ServerEvent.cancel 0]) ?_ _ []
    (append_nil _).symm⟩
  have hnone : ∀ id, ServerEvent.cancel id ∉ sampleDelivered := by
    simp [sampleDelivered, Server.samplePast]
  intro before id later hsplit
  rcases eq_nil_or_concat later with rfl | ⟨rest, last, rfl⟩
  · obtain ⟨rfl, hlast⟩ := append_inj' hsplit rfl
    cases hlast
    exact nofun
  · rw [concat_eq_append, ← cons_append, ← append_assoc] at hsplit
    obtain ⟨hrest, -⟩ := append_inj' hsplit rfl
    exact absurd (hrest ▸ mem_append_right _ mem_cons_self) (hnone id)

/-- A call that is dropped while it waits for its data connection leaves its slot in the
map, and the time that passes does not remove it. -/
theorem samplePast_left :
    let server := Server.new.run Server.sampleTokens
      (Server.samplePast ++ [ServerEvent.cancel 0, .poll 0 true, .removeSlot 0])
    server.sessions "session" = some ⟨"a-token", 0⟩ ∧ (server.calls 0).phase = .cancelled ∧
      ¬ server.SlotsLive := by
  refine ⟨rfl, rfl, fun hlive => ?_⟩
  exact hlive "session" ⟨"a-token", 0⟩ rfl

end PbsGui.Relay
