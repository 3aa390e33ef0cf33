import PbsGui.Relay.ServerSteps

/-!
# Sessions and their data connections

A slot in the map of sessions holds the only sender to the call that made it.  Whoever
takes the slot out of the map, be it a data connection, a failure report, the call
itself or a session that happens to get the same id, decides what arrives there.
-/

namespace PbsGui.Relay

open Lib Function

/-- What holds of a call. -/
structure CallOk (tokens : AgentTokens) (conns : ConnId → Conn) (call : Call) : Prop where
  early : call.phase.Early → call.sessionId = none ∧ call.arrival = .pending
  token : ∀ control token, call.phase = .looked control token → tokens call.agent = some token
  /-- A stream that has arrived began with the session's id and the agent's token. -/
  stream : ∀ conn, call.arrival = .sent (.ok conn) → (conns conn).phase = .closed ∧
    ∃ sessionId token, (conns conn).first = some (.control (.hello sessionId token)) ∧
      call.sessionId = some sessionId ∧ tokens call.agent = some token
  returned : ∀ conn, call.phase = .returned (.ok conn) → call.arrival = .sent (.ok conn)

/-- What holds of a slot: its call waits under its id, with the token of its agent. -/
structure SlotOk (tokens : AgentTokens) (calls : CallId → Call) (sessionId : String)
    (slot : SessionSlot) : Prop where
  sessionId : (calls slot.deliver).sessionId = some sessionId
  arrival : (calls slot.deliver).arrival = .pending
  token : tokens (calls slot.deliver).agent = some slot.expectedToken

/-- What holds of the sessions in every state. -/
structure SessionsInv (tokens : AgentTokens) (server : Server) : Prop where
  slot : ∀ sessionId slot, server.sessions sessionId = some slot →
    SlotOk tokens server.calls sessionId slot
  call : ∀ id, CallOk tokens server.conns (server.calls id)
  /-- A connection has arrived at one call only. -/
  single : ∀ first second conn, (server.calls first).arrival = .sent (.ok conn) →
    (server.calls second).arrival = .sent (.ok conn) → first = second

section Steps

variable {tokens : AgentTokens} {server after : Server} {id : CallId} {sessionId : String}
  {slot : SessionSlot} {arrival : SessionSlot → Arrival} {event : ServerEvent} {call : Call}

theorem SlotOk.deliver_ne {other : SessionSlot} {otherId : String}
    (h : SlotOk tokens server.calls sessionId slot) (hother : SlotOk tokens server.calls otherId other)
    (hne : otherId ≠ sessionId) : other.deliver ≠ slot.deliver := by
  intro heq
  have hsame := hother.sessionId
  rw [heq, h.sessionId] at hsame
  exact hne (Option.some.inj hsame).symm

theorem SessionsInv.new : SessionsInv tokens Server.new where
  slot _ _ h := by cases h
  call _ := {
    early := fun _ => ⟨rfl, rfl⟩
    token := fun _ _ h => by cases h
    stream := fun _ h => by cases h
    returned := fun _ h => by cases h }
  single _ _ _ h := by cases h

variable (h : SessionsInv tokens server)

include h

/-- The calls do not depend on the connections, but for the first frames of those that
have been delivered. -/
theorem SessionsInv.of_conns (hsessions : after.sessions = server.sessions)
    (hcalls : after.calls = server.calls)
    (hclosed : ∀ conn, (server.conns conn).phase = .closed → (after.conns conn).phase = .closed ∧
      (after.conns conn).first = (server.conns conn).first) :
    SessionsInv tokens after := by
  refine ⟨?_, fun id => ?_, ?_⟩
  · rw [hsessions, hcalls]
    exact h.slot
  · rw [hcalls]
    have hcall := h.call id
    refine ⟨hcall.early, hcall.token, fun conn harr => ?_, hcall.returned⟩
    obtain ⟨hphase, sessionId, token, hfirst, hown⟩ := hcall.stream conn harr
    obtain ⟨hphase', hfirst'⟩ := hclosed conn hphase
    exact ⟨hphase', sessionId, token, hfirst'.trans hfirst, hown⟩
  · rw [hcalls]
    exact h.single

/-- A slot is taken out of the map; what arrives as a stream must be new and good. -/
theorem SessionsInv.settle
    (harr : ∀ slot conn, server.sessions sessionId = some slot →
      arrival slot = .sent (.ok conn) → (server.conns conn).phase = .closed ∧
        (server.conns conn).first = some (.control (.hello sessionId slot.expectedToken)) ∧ ∀ id,
          (server.calls id).arrival ≠ .sent (.ok conn)) :
    SessionsInv tokens (server.settle sessionId arrival) := by
  cases hslot : server.sessions sessionId with
  | none =>
    rw [Server.settle_of_none hslot]
    exact h
  | some slot =>
    have hown := h.slot sessionId slot hslot
    refine ⟨fun otherId other hother => ?_, fun id => ?_, fun first second conn hfirst hsnd => ?_⟩
    · rw [Server.settle_sessions] at hother
      have hne : otherId ≠ sessionId := by
        rintro rfl
        rw [update_self] at hother
        cases hother
      rw [update_of_ne hne] at hother
      have hold := h.slot otherId other hother
      have hcall : (server.settle sessionId arrival).calls other.deliver = server.calls other.deliver := by
        rw [Server.settle_calls_of_some hslot, update_of_ne (hown.deliver_ne hold hne)]
      exact ⟨hcall ▸ hold.sessionId, hcall ▸ hold.arrival, hcall ▸ hold.token⟩
    · rw [Server.settle_conns, Server.settle_calls_of_some hslot]
      by_cases hid : id = slot.deliver
      · subst hid
        rw [update_self]
        have hcall := h.call slot.deliver
        refine ⟨fun hearly => ?_, hcall.token, fun conn hsent => ?_, fun conn hret => ?_⟩
        · exact absurd ((hcall.early hearly).1.symm.trans hown.sessionId) (by simp)
        · obtain ⟨hphase, hhello, -⟩ := harr slot conn hslot hsent
          exact ⟨hphase, sessionId, slot.expectedToken, hhello, hown.sessionId, hown.token⟩
        · exact absurd ((hcall.returned conn hret).symm.trans hown.arrival) (by simp)
      · rw [update_of_ne hid]
        exact h.call id
    · rw [Server.settle_calls_of_some hslot] at hfirst hsnd
      -- nothing that has arrived before is this connection
      by_cases hone : first = slot.deliver <;> by_cases htwo : second = slot.deliver
      · exact hone.trans htwo.symm
      · rw [hone, update_self] at hfirst
        rw [update_of_ne htwo] at hsnd
        exact absurd hsnd ((harr slot conn hslot hfirst).2.2 second)
      · rw [htwo, update_self] at hsnd
        rw [update_of_ne hone] at hfirst
        exact absurd hfirst ((harr slot conn hslot hsnd).2.2 first)
      · rw [update_of_ne hone] at hfirst
        rw [update_of_ne htwo] at hsnd
        exact h.single first second conn hfirst hsnd

theorem SessionsInv.settle_plain (harr : ∀ slot conn, arrival slot ≠ .sent (.ok conn)) :
    SessionsInv tokens (server.settle sessionId arrival) :=
  h.settle fun slot conn _ hsent => absurd hsent (harr slot conn)

theorem SessionsInv.settle_dropped :
    SessionsInv tokens (server.settle sessionId fun _ => .dropped) :=
  h.settle_plain (by simp)

theorem SessionsInv.setCall
    (hslots : ∀ sessionId slot, server.sessions sessionId = some slot → slot.deliver = id →
      call.sessionId = (server.calls id).sessionId ∧ call.agent = (server.calls id).agent)
    (harr : call.arrival = (server.calls id).arrival) (hcall : CallOk tokens server.conns call)
    : SessionsInv tokens (server.setCall id call) := by
  have harrivals : ∀ other,
    ((server.setCall id call).calls other).arrival = (server.calls other).arrival := by
    intro other
    rw [Server.setCall_calls]
    by_cases hother : other = id
    · rw [hother, update_self, harr]
    · rw [update_of_ne hother]
  refine ⟨fun sessionId slot hslot => ?_, fun other => ?_, fun first second conn hfirst hsnd => ?_⟩
  · have hold := h.slot sessionId slot hslot
    by_cases hdel : slot.deliver = id
    · obtain ⟨hsess, hagent⟩ := hslots sessionId slot hslot hdel
      subst hdel
      have hself : (server.setCall slot.deliver call).calls slot.deliver = call := update_self ..
      exact ⟨by rw [hself, hsess, hold.sessionId], (harrivals _).trans hold.arrival,
        by rw [hself, hagent, hold.token]⟩
    · have hsame : (server.setCall id call).calls slot.deliver = server.calls slot.deliver :=
        update_of_ne hdel _ _
      exact ⟨hsame ▸ hold.sessionId, hsame ▸ hold.arrival, hsame ▸ hold.token⟩
  · rw [Server.setCall_calls]
    by_cases hother : other = id
    · rw [hother, update_self]
      exact hcall
    · rw [update_of_ne hother]
      exact h.call other
  · rw [harrivals] at hfirst hsnd
    exact h.single first second conn hfirst hsnd

theorem SessionsInv.moveCall {phase : CallPhase} (hearly : ¬ phase.Early)
    (hret : ∀ conn, phase = .returned (.ok conn) → (server.calls id).arrival = .sent (.ok conn)) :
    SessionsInv tokens (server.moveCall id phase) := by
  have hcall := h.call id
  refine h.setCall (fun _ _ _ _ => ⟨rfl, rfl⟩) rfl ⟨fun hphase => absurd hphase hearly, ?_, hcall.stream,
    hret⟩
  exact fun control token hphase => absurd (.inr ⟨control, token, hphase⟩) hearly

/-! ### Every step -/

/-- A data connection that is still open has arrived nowhere, and only a good token sends
it on. -/
theorem SessionsInv.hello {conn : ConnId} {token : String}
    (hphase : (server.conns conn).phase = .accepted) :
    SessionsInv tokens
      ((server.setConn conn
        { server.conns conn with
          phase := .closed, first := some (.control (.hello sessionId token)) }).settle sessionId
        fun slot => if slot.expectedToken = token then .sent (.ok conn) else .dropped) := by
  have hopen : ∀ other, (server.conns other).phase = .closed → other ≠ conn := by
    rintro other hclosed rfl
    rw [hphase] at hclosed
    cases hclosed
  have hset : ∀ changed, SessionsInv tokens (server.setConn conn changed) := by
    refine fun changed => h.of_conns rfl rfl fun other hclosed => ?_
    rw [Server.setConn_conns, update_of_ne (hopen other hclosed)]
    exact ⟨hclosed, rfl⟩
  refine (hset _).settle fun slot other hslot hsent => ?_
  split at hsent
  · rename_i htoken
    cases hsent
    refine ⟨by simp, by simp [htoken], fun id harr => ?_⟩
    exact hopen conn ((h.call id).stream conn harr).1 rfl
  · cases hsent

theorem SessionsInv.openSession {agent : String} (hphase : (server.calls id).phase = .absent) :
    SessionsInv tokens (server.openSession tokens id agent) := by
  obtain ⟨hnone, hpend⟩ := (h.call id).early (.inl hphase)
  refine h.setCall (fun sessionId slot hslot hdel => ?_) rfl ?_
  · have hown := (h.slot sessionId slot hslot).sessionId
    rw [hdel, hnone] at hown
    cases hown
  · refine ⟨fun _ => ⟨hnone, hpend⟩, fun control token hlooked => ?_, fun conn hsent => ?_,
      fun conn hret => ?_⟩
    · dsimp only at hlooked
      split at hlooked
      · cases hlooked
      · cases hlooked
      · rename_i entry expected _ htoken
        cases hlooked
        exact htoken
    · exact absurd (hpend.symm.trans hsent) (by simp)
    · dsimp only at hret
      split at hret <;> cases hret

theorem SessionsInv.addSlot (hslot : SlotOk tokens server.calls sessionId slot) :
    SessionsInv tokens
      { server with sessions := update server.sessions sessionId (some slot) } := by
  refine ⟨fun otherId other hother => ?_, h.call, h.single⟩
  dsimp only at hother
  by_cases hid : otherId = sessionId
  · subst hid
    rw [update_self] at hother
    cases hother
    exact hslot
  · rw [update_of_ne hid] at hother
    exact h.slot otherId other hother

theorem SessionsInv.deliver_ne_of_early (hearly : (server.calls id).phase.Early)
    (hslot : server.sessions sessionId = some slot) : slot.deliver ≠ id := by
  rintro rfl
  have hown := (h.slot sessionId slot hslot).sessionId
  rw [((h.call slot.deliver).early hearly).1] at hown
  cases hown

theorem SessionsInv.settle_calls_of_early (hearly : (server.calls id).phase.Early) :
    (server.settle sessionId arrival).calls id = server.calls id := by
  cases hslot : server.sessions sessionId with
  | none => rw [Server.settle_of_none hslot]
  | some =>
    rw [Server.settle_calls_of_some hslot, update_of_ne (h.deliver_ne_of_early hearly hslot).symm]

theorem SessionsInv.insertSlot {control : ConnId} {token : String}
    (hphase : (server.calls id).phase = .looked control token) :
    SessionsInv tokens (server.insertSlot id control token sessionId) := by
  have hearly : (server.calls id).phase.Early := .inr ⟨control, token, hphase⟩
  obtain ⟨-, hpend⟩ := (h.call id).early hearly
  have hsett : SessionsInv tokens (server.settle sessionId fun _ => .dropped) := h.settle_dropped
  have hcalls : (server.settle sessionId fun _ => .dropped).calls id = server.calls id :=
    h.settle_calls_of_early hearly
  have hmoved : SessionsInv tokens ((server.settle sessionId fun _ => .dropped).setCall id
      { server.calls id with sessionId := some sessionId, phase := .sending control }) := by
    refine hsett.setCall (fun otherId slot hslot hdel => ?_) (by rw [hcalls]) ?_
    · exact absurd hdel (hsett.deliver_ne_of_early (hcalls ▸ hearly) hslot)
    · exact ⟨by simp [CallPhase.Early], by simp,
        fun conn hsent => absurd (hpend.symm.trans hsent) (by simp), by simp⟩
  have hadded := @SessionsInv.addSlot tokens _ sessionId ⟨token, id⟩ hmoved
    ⟨by simp, by simpa using hpend, by simpa using (h.call id).token control token hphase⟩
  unfold Server.insertSlot
  dsimp only
  rw [hcalls]
  exact hadded

theorem SessionsInv.failCall {message : String} :
    SessionsInv tokens (server.failCall id message) := by
  have hlate : (CallPhase.returned (.error message)).Late := trivial
  have hstream : ∀ conn, CallPhase.returned (.error message) ≠ .returned (.ok conn) := by simp
  unfold Server.failCall
  dsimp only
  split
  · exact h.settle_dropped.moveCall hlate.not_early fun conn hret => absurd hret (hstream conn)
  · exact h.moveCall hlate.not_early fun conn hret => absurd hret (hstream conn)

theorem SessionsInv.connEffect {conn : ConnId}
    (heff : Server.ConnEffect tokens server conn event after)
    (hclosed : ∀ other, (server.conns other).phase = .closed →
      (after.conns other).phase = .closed ∧ (after.conns other).first = (server.conns other).first) :
    SessionsInv tokens after := by
  cases heff with
  | idle | moves | registers | leaves => exact h.of_conns rfl rfl hclosed
  | hello token hphase => exact h.hello hphase
  | report => exact h.settle_plain (by simp)

theorem SessionsInv.callEffect (heff : Server.CallEffect tokens server id event after) :
    SessionsInv tokens after := by
  cases heff with
  | idle => exact h
  | looks agent hphase => exact h.openSession hphase
  | inserts sessionId hphase => exact h.insertSlot hphase
  | moves hactive hlate hstream => exact h.moveCall hlate.not_early hstream
  | fails => exact h.failCall

theorem SessionsInv.step : SessionsInv tokens (server.step tokens event) := by
  cases hconn : event.connId with
  | some =>
    exact h.connEffect (Server.step_of_conn hconn) fun _ hclosed => Server.step_conns_closed hclosed
  | none =>
    obtain ⟨id, hid⟩ := ServerEvent.exists_callId hconn
    exact h.callEffect (Server.step_of_call hid)

end Steps

theorem sessionsInv_run {tokens : AgentTokens} {server : Server} (h : SessionsInv tokens server)
    (events : List ServerEvent) : SessionsInv tokens (server.run tokens events) :=
  @EventRuns.invariant_of_foldl _ _ _ (fun _ => True) _ (fun _ _ _ hpre => hpre.step) events
    (fun _ _ => trivial) server h

/-- What a step keeps of a call: what has arrived, what it has returned, the id of its
session and the agent it is for. -/
structure Call.Keeps (before after : Call) : Prop where
  arrival : before.arrival ≠ .pending → after.arrival = before.arrival
  phase : ∀ result, before.phase = .returned result → after.phase = .returned result
  sessionId : ∀ sessionId, before.sessionId = some sessionId → after.sessionId = some sessionId
  agent : before.phase ≠ .absent → after.phase ≠ .absent ∧ after.agent = before.agent

namespace Call.Keeps

theorem refl (call : Call) : Call.Keeps call call :=
    ⟨fun _ => rfl, fun _ h => h, fun _ h => h, fun h => ⟨h, rfl⟩⟩

theorem trans {first second third : Call} (h : Keeps first second) (h' : Keeps second third) :
    Keeps first third where
  arrival harr := by
    have hsame := h.arrival harr
    exact (h'.arrival (hsame ▸ harr)).trans hsame
  phase result hret := h'.phase result (h.phase result hret)
  sessionId sessionId hid := h'.sessionId sessionId (h.sessionId sessionId hid)
  agent hbegun := by
    obtain ⟨hphase, hagent⟩ := h.agent hbegun
    obtain ⟨hphase', hagent'⟩ := h'.agent hphase
    exact ⟨hphase', hagent'.trans hagent⟩

end Call.Keeps

section Outcomes

variable {tokens : AgentTokens} {server : Server} {id : CallId} {event : ServerEvent}

/-- A slot in the map is one whose sender has sent nothing yet, so nothing arrives twice. -/
theorem SessionsInv.step_keeps (h : SessionsInv tokens server) :
    Call.Keeps (server.calls id) ((server.step tokens event).calls id) := by
  rcases Server.step_calls tokens server event id with
    hmoved | ⟨agent, hphase, hstep⟩ | ⟨control, token, sessionId, hphase, -, hstep⟩
  · refine ⟨fun harr => ?_, fun result hret => ?_, fun sessionId hid =>
    hmoved.sessionId.trans hid, fun hbegun => ⟨?_, hmoved.agent⟩⟩
    · rcases hmoved.arrival with hsame | ⟨sessionId, slot, hslot, rfl⟩
      · exact hsame
      · exact absurd (h.slot sessionId slot hslot).arrival harr
    · rcases hmoved.phase with hsame | ⟨hnot, -⟩
      · exact hsame.trans hret
      · exact absurd hret (hnot result)
    · rcases hmoved.phase with hsame | ⟨-, hlate⟩
      · exact hsame ▸ hbegun
      · exact fun habs => hlate.not_early (.inl habs)
  · rw [hstep, Server.openSession, Server.setCall_calls, update_self]
    refine ⟨fun _ => rfl, fun result hret => ?_, fun _ hid => hid, fun hbegun => absurd hphase hbegun⟩
    cases hphase.symm.trans hret
  · have hearly : (server.calls id).phase.Early := .inr ⟨control, token, hphase⟩
    have hcalls : (server.settle sessionId fun _ => .dropped).calls id = server.calls id :=
      h.settle_calls_of_early hearly
    simp only [hstep, Server.insertSlot, Server.setCall_calls, update_self, hcalls]
    refine ⟨fun _ => rfl, fun result hret => ?_, fun old hid => ?_, fun _ => ⟨by simp, rfl⟩⟩
    · cases hphase.symm.trans hret
    · cases ((h.call id).early hearly).1.symm.trans hid

theorem SessionsInv.run_keeps (h : SessionsInv tokens server) (events : List ServerEvent) :
    Call.Keeps (server.calls id) ((server.run tokens events).calls id) := by
  have hboth : SessionsInv tokens (server.run tokens events) ∧
      Call.Keeps (server.calls id) ((server.run tokens events).calls id) := by
    refine @EventRuns.invariant_of_foldl _ _ _ (fun _ => True)
      (fun state => SessionsInv tokens state ∧ Call.Keeps (server.calls id) (state.calls id))
      (fun state event _ hstate => ?_) events (fun _ _ => trivial) server ⟨h, .refl _⟩
    exact ⟨hstate.1.step, hstate.2.trans hstate.1.step_keeps⟩
  exact hboth.2

end Outcomes

/-- In every run: what a call has received or returned stays; a stream that it returns
began with a `Hello` with the id of its session and the token of its agent; and a
connection is delivered to one call only. -/
theorem openSession_outcome (tokens : AgentTokens) (past later : List ServerEvent) (id : CallId) :
    let before := Server.new.run tokens past
    let server := before.run tokens later
    (∀ result, (before.calls id).phase = .returned result →
        (server.calls id).phase = .returned result) ∧
      ((before.calls id).arrival ≠ .pending →
        (server.calls id).arrival = (before.calls id).arrival) ∧
      (∀ conn, (server.calls id).phase = .returned (.ok conn) → ∃ sessionId token,
        (server.conns conn).first = some (.control (.hello sessionId token)) ∧
          (server.calls id).sessionId = some sessionId ∧
          tokens (server.calls id).agent = some token) ∧
      ∀ other conn, (server.calls id).arrival = .sent (.ok conn) →
        (server.calls other).arrival = .sent (.ok conn) → other = id := by
  intro before server
  have hbefore : SessionsInv tokens before := sessionsInv_run .new past
  have hinv : SessionsInv tokens server := sessionsInv_run hbefore later
  have hkeeps : Call.Keeps (before.calls id) (server.calls id) := hbefore.run_keeps later
  refine ⟨hkeeps.phase, hkeeps.arrival, fun conn hreturned => ?_, fun other conn hone hother => ?_⟩
  · obtain ⟨-, hstream⟩ := (hinv.call id).stream conn ((hinv.call id).returned conn hreturned)
    exact hstream
  · exact hinv.single other id conn hother hone

end PbsGui.Relay
