import PbsGui.Relay.Server

/-!
# What a step of the relay server changes

Every event is about one connection or about one call.  A connection touches the sessions
only where it takes out a slot, and a call touches neither the registry nor a connection.
The events are sorted here by what they come to, so that an invariant need not go through
all of them again.
-/

namespace PbsGui.Relay

open Function

def ServerEvent.connId : ServerEvent → Option ConnId
  | accept id | firstFrame id _ | welcomed id _ | controlFrame id _ | teardown id
  | abortWriter id | writerFailed id => some id
  | openSession _ _ | insertSlot _ _ | sendStart _ | poll _ _ | removeSlot _ | cancel _ => none

def ServerEvent.callId : ServerEvent → Option CallId
  | openSession id _ | insertSlot id _ | sendStart id | poll id _ | removeSlot id | cancel id => some id
  | accept _ | firstFrame _ _ | welcomed _ _ | controlFrame _ _ | teardown _ | abortWriter _
  | writerFailed _ => none

theorem ServerEvent.exists_callId {event : ServerEvent} (h : event.connId = none) :
    ∃ id, event.callId = some id := by
  cases event with
  | accept | firstFrame | welcomed | controlFrame | teardown | abortWriter | writerFailed => cases h
  | openSession id | insertSlot id | sendStart id | poll id | removeSlot id | cancel id => exact ⟨id, rfl⟩

/-! ### What a call does -/

/-- The call has not put its slot into the map yet. -/
def CallPhase.Early (phase : CallPhase) : Prop :=
  phase = .absent ∨ ∃ control token, phase = .looked control token

/-- The call waits for its command to be sent, or for its data connection. -/
def CallPhase.Active : CallPhase → Prop
  | sending _ | waiting => True
  | absent | looked _ _ | failing _ | returned _ | cancelled => False

/-- The call's command has been sent, or the call is over. -/
def CallPhase.Late : CallPhase → Prop
  | waiting | failing _ | returned _ | cancelled => True
  | absent | looked _ _ | sending _ => False

/-- The call has yet to send its command over this control channel. -/
def CallPhase.Uses (phase : CallPhase) (control : ConnId) : Prop :=
  phase = .sending control ∨ ∃ token, phase = .looked control token

theorem CallPhase.Late.not_early {phase : CallPhase} (h : phase.Late) : ¬ phase.Early := by
  rintro (rfl | ⟨control, token, rfl⟩) <;> exact h

theorem CallPhase.Late.not_uses {phase : CallPhase} {control : ConnId} (h : phase.Late) :
    ¬ phase.Uses control := by
  rintro (rfl | ⟨token, rfl⟩) <;> exact h

namespace Server

variable {tokens : AgentTokens} {server after left right : Server} {id other : ConnId}
  {event : ServerEvent} {sessionId : String} {arrival : SessionSlot → Arrival}

/-- What an event about a call comes to. -/
inductive CallEffect (tokens : AgentTokens) (server : Server) (id : CallId) : ServerEvent → Server → Prop
  | idle {event : ServerEvent} : CallEffect tokens server id event server
  | looks {event : ServerEvent} (agent : String) (hphase : (server.calls id).phase = .absent) :
      CallEffect tokens server id event (server.openSession tokens id agent)
  | inserts {control : ConnId} {token : String} (sessionId : String)
      (hphase : (server.calls id).phase = .looked control token) :
      CallEffect tokens server id (.insertSlot id sessionId) (server.insertSlot id control token sessionId)
  | moves {event : ServerEvent} {phase : CallPhase} (hactive : (server.calls id).phase.Active)
      (hlate : phase.Late)
      (hstream : ∀ conn, phase = .returned (.ok conn) → (server.calls id).arrival = .sent (.ok conn)) :
      CallEffect tokens server id event (server.moveCall id phase)
  | fails {event : ServerEvent} {message : String} (hphase : (server.calls id).phase = .failing message) :
      CallEffect tokens server id event (server.failCall id message)

theorem pollCall_effect {elapsed : Bool} (hphase : (server.calls id).phase = .waiting) :
    CallEffect tokens server id event (server.pollCall id elapsed) := by
  have hactive : (server.calls id).phase.Active := by
    rw [hphase]
    trivial
  unfold pollCall
  dsimp only
  split
  · rename_i conn hsent
    refine .moves hactive trivial ?_
    rintro other ⟨⟩
    exact hsent
  · exact .moves hactive trivial nofun
  · exact .moves hactive trivial nofun
  · split
    · exact .moves hactive trivial nofun
    · exact .idle

theorem step_of_call (h : event.callId = some id) :
    CallEffect tokens server id event (server.step tokens event) := by
  cases event with
  | accept | firstFrame | welcomed | controlFrame | teardown | abortWriter | writerFailed => cases h
  | openSession call agent =>
    cases h
    simp only [step]
    split
    · rename_i hphase
      exact .looks agent hphase
    · exact .idle
  | insertSlot call sessionId =>
    cases h
    simp only [step]
    split
    · rename_i hphase
      exact .inserts sessionId hphase
    · exact .idle
  | sendStart call =>
    obtain rfl : call = id := Option.some.inj h
    simp only [step]
    split
    · rename_i hphase
      have hactive : (server.calls call).phase.Active := by
        rw [hphase]
        trivial
      split
      · exact .moves hactive trivial nofun
      · exact .moves hactive trivial nofun
    · exact .idle
  | poll call =>
    cases h
    simp only [step]
    split
    · rename_i hphase
      exact pollCall_effect hphase
    · exact .idle
  | removeSlot call =>
    cases h
    simp only [step]
    split
    · rename_i hphase
      exact .fails hphase
    · exact .idle
  | cancel call =>
    cases h
    simp only [step]
    split
    · rename_i hphase
      exact .moves (by rw [hphase]; trivial) trivial nofun
    · rename_i hphase
      exact .moves (by rw [hphase]; trivial) trivial nofun
    · exact .idle

/-- The connections and the registry are left alone. -/
structure SameConns (server after : Server) : Prop where
  agents : after.agents = server.agents
  registered : after.registered = server.registered
  conns : after.conns = server.conns

theorem SameConns.refl : SameConns server server := ⟨rfl, rfl, rfl⟩

theorem SameConns.settle : SameConns server (server.settle sessionId arrival) :=
  ⟨settle_agents, settle_registered, settle_conns⟩

theorem CallEffect.sameConns (h : CallEffect tokens server id event after) : SameConns server after := by
  cases h with
  | idle | looks agent | moves => exact ⟨rfl, rfl, rfl⟩
  | inserts => exact ⟨settle_agents, settle_registered, settle_conns⟩
  | fails =>
    unfold failCall
    dsimp only
    split
    · exact ⟨settle_agents, settle_registered, settle_conns⟩
    · exact ⟨rfl, rfl, rfl⟩

theorem step_sameConns (h : event.connId = none) : SameConns server (server.step tokens event) := by
  obtain ⟨call, hcall⟩ := ServerEvent.exists_callId h
  exact (step_of_call hcall).sameConns

/-! ### What a connection does -/

end Server

/-- What the task of a connection does to its own state alone. -/
inductive ConnMove (tokens : AgentTokens) (id : ConnId) : ServerEvent → Conn → Conn → Prop
  | accepted {event : ServerEvent} {conn : Conn} (hphase : conn.phase = .absent) :
      ConnMove tokens id event conn { conn with phase := .accepted }
  | closed {event : ServerEvent} {conn : Conn} {read : Option Frame} (hphase : conn.phase = .accepted) :
      ConnMove tokens id event conn { conn with first := read, phase := .closed }
  | refused {event : ServerEvent} {conn : Conn} {read : Option Frame} (message : String)
      (hphase : conn.phase = .accepted) :
      ConnMove tokens id event conn { conn with first := read, phase := .refused message }
  | welcomed {conn : Conn} {agentName host token version : String} {proto : UInt32}
      (hphase : conn.phase = .accepted)
      (hrefusal : Server.refusal tokens agentName token proto = none) :
      ConnMove tokens id (.firstFrame id (some (.control (.register agentName host token version proto))))
        conn
        { conn with
          first := some (.control (.register agentName host token version proto))
          phase := .welcoming agentName host version }
  | unwelcomed {event : ServerEvent} {conn : Conn} {agentName host version : String}
      (hphase : conn.phase = .welcoming agentName host version) :
      ConnMove tokens id event conn { conn with phase := .closed }
  | ended {event : ServerEvent} {conn : Conn} {agentName : String}
      (hphase : conn.phase = .serving agentName) :
      ConnMove tokens id event conn { conn with phase := .leaving agentName }
  | aborted {event : ServerEvent} {conn : Conn} (hphase : conn.phase = .removed) :
      ConnMove tokens id event conn { conn with phase := .closed, writer := false }
  | writerFailed {event : ServerEvent} {conn : Conn} :
      ConnMove tokens id event conn { conn with writer := false }

namespace Server

variable {tokens : AgentTokens} {server after left right : Server} {id other : ConnId}
  {event : ServerEvent}

/-- What an event about a connection comes to. -/
inductive ConnEffect (tokens : AgentTokens) (server : Server) (id : ConnId) : ServerEvent → Server → Prop
  | idle {event : ServerEvent} : ConnEffect tokens server id event server
  | moves {event : ServerEvent} {conn : Conn} (hmove : ConnMove tokens id event (server.conns id) conn) :
      ConnEffect tokens server id event (server.setConn id conn)
  | registers {event : ServerEvent} {agentName host version : String}
      (hphase : (server.conns id).phase = .welcoming agentName host version) :
      ConnEffect tokens server id event (server.register id agentName host version)
  | leaves {event : ServerEvent} {agentName : String}
    (hphase : (server.conns id).phase = .leaving agentName) :
      ConnEffect tokens server id event (server.deregister id agentName)
  | hello {sessionId : String} (token : String) (hphase : (server.conns id).phase = .accepted) :
      ConnEffect tokens server id (.firstFrame id (some (.control (.hello sessionId token))))
        ((server.setConn id
          { server.conns id with
            phase := .closed, first := some (.control (.hello sessionId token)) }).settle sessionId
          fun slot => if slot.expectedToken = token then .sent (.ok id) else .dropped)
  | report {sessionId agentName : String} (error : Option String) (bytes : UInt64)
      (hphase : (server.conns id).phase = .serving agentName) :
      ConnEffect tokens server id
        (.controlFrame id (some (.control (.sessionDone sessionId false error bytes))))
        (server.settle sessionId fun _ => .sent (.error (error.getD "unknown error")))

theorem setPhase_setConn {conn : Conn} {phase : ConnPhase} :
    (server.setConn id conn).setPhase id phase = server.setConn id { conn with phase := phase } := by
  simp [setPhase, setConn]

theorem setConn_settle {sessionId : String} {arrival : SessionSlot → Arrival} {conn : Conn} :
    (server.settle sessionId arrival).setConn id conn =
      (server.setConn id conn).settle sessionId arrival := by
  unfold settle
  rw [setConn_sessions]
  split <;> rfl

theorem handleConn_hello {sessionId token : String} :
    server.handleConn tokens id (some (.control (.hello sessionId token))) =
      (server.setConn id
        { server.conns id with
          phase := .closed, first := some (.control (.hello sessionId token)) }).settle sessionId
        fun slot => if slot.expectedToken = token then .sent (.ok id) else .dropped := by
  simp only [handleConn, setPhase]
  rw [setConn_settle, settle_conns, setConn_conns, update_self]
  simp only [setConn, update_idem]

theorem handleConn_effect (hphase : (server.conns id).phase = .accepted) (read : Option Frame) :
    ConnEffect tokens server id (.firstFrame id read) (server.handleConn tokens id read) := by
  unfold handleConn
  dsimp only
  split
  · split
    · rw [setPhase_setConn]
      exact .moves (.refused _ hphase)
    · rename_i hrefusal
      rw [setPhase_setConn]
      exact .moves (.welcomed hphase hrefusal)
  · rename_i sessionId token
    show ConnEffect tokens server id _
      (server.handleConn tokens id (some (.control (.hello sessionId token))))
    rw [handleConn_hello]
    exact .hello token hphase
  · rw [setPhase_setConn]
    exact .moves (.closed hphase)

theorem readControl_effect {agentName : String} (hphase : (server.conns id).phase = .serving agentName)
    (read : Option Frame) :
    ConnEffect tokens server id (.controlFrame id read) (server.readControl id agentName read) := by
  unfold readControl
  split
  · rename_i sessionId ok error bytes
    cases ok with
    | true => exact .idle
    | false => exact .report error bytes hphase
  · exact .idle
  · exact .moves (.ended hphase)

theorem step_of_conn (h : event.connId = some id) :
    ConnEffect tokens server id event (server.step tokens event) := by
  cases event with
  | accept conn =>
    cases h
    simp only [step]
    split
    · rename_i hphase
      exact .moves (.accepted hphase)
    · exact .idle
  | firstFrame conn read =>
    cases h
    simp only [step]
    split
    · rename_i hphase
      exact handleConn_effect hphase read
    · exact .idle
  | welcomed conn written =>
    cases h
    simp only [step]
    split
    · rename_i hphase
      cases written with
      | true => exact .registers hphase
      | false => exact .moves (.unwelcomed hphase)
    · exact .idle
  | controlFrame conn read =>
    cases h
    simp only [step]
    split
    · rename_i hphase
      exact readControl_effect hphase read
    · exact .idle
  | teardown conn =>
    cases h
    simp only [step]
    split
    · rename_i hphase
      exact .leaves hphase
    · exact .idle
  | abortWriter conn =>
    cases h
    simp only [step]
    split
    · rename_i hphase
      exact .moves (.aborted hphase)
    · exact .idle
  | writerFailed conn =>
    cases h
    exact .moves .writerFailed
  | openSession | insertSlot | sendStart | poll | removeSlot | cancel => cases h

theorem ConnEffect.conns_of_ne (h : ConnEffect tokens server id event after) (hne : other ≠ id) :
    after.conns other = server.conns other := by
  cases h with
  | idle => rfl
  | moves | registers | leaves => exact update_of_ne hne _ _
  | hello => rw [settle_conns, setConn_conns, update_of_ne hne]
  | report => rw [settle_conns]

theorem step_conns_of_ne (h : event.connId ≠ some id) :
    (server.step tokens event).conns id = server.conns id := by
  cases hconn : event.connId with
  | some => exact (step_of_conn hconn).conns_of_ne fun heq => h (heq ▸ hconn)
  | none => rw [(step_sameConns hconn).conns]

theorem handleConn_conns (read : Option Frame) :
    (server.handleConn tokens id read).conns = Function.update server.conns id
      { server.conns id with
        first := read
        phase :=
          match read with
          | some (.control (.register agentName host token version proto)) =>
            match refusal tokens agentName token proto with
            | some message => .refused message
            | none => .welcoming agentName host version
          | _ => .closed } := by
  unfold handleConn
  dsimp only
  split
  · split <;> simp [setPhase, *]
  · simp [setPhase]
  · simp [setPhase]

theorem step_conns_congr (h : left.conns id = right.conns id) :
    (left.step tokens event).conns id = (right.step tokens event).conns id := by
  by_cases hevent : event.connId = some id
  · cases event with
    | accept other | teardown other | abortWriter other =>
      cases hevent
      simp only [step, h]
      split <;> simp [setPhase, deregister, h]
    | writerFailed other =>
      cases hevent
      simp [step, h]
    | firstFrame other =>
      cases hevent
      simp only [step, h]
      split
      · rw [handleConn_conns, handleConn_conns, update_self, update_self, h]
      · exact h
    | welcomed other =>
      cases hevent
      simp only [step, h]
      split
      · split <;> simp [register, setPhase, h]
      · exact h
    | controlFrame other =>
      cases hevent
      simp only [step, h]
      split
      · unfold readControl
        split
        · split <;> simp [h]
        · exact h
        · simp [setPhase, h]
      · exact h
    | openSession | insertSlot | sendStart | poll | removeSlot | cancel => cases hevent
  · rw [step_conns_of_ne hevent, step_conns_of_ne hevent, h]

theorem step_conns_closed (h : (server.conns id).phase = .closed) :
    ((server.step tokens event).conns id).phase = .closed ∧
      ((server.step tokens event).conns id).first = (server.conns id).first := by
  by_cases hevent : event.connId = some id
  · have heff : ConnEffect tokens server id event (server.step tokens event) := step_of_conn hevent
    generalize server.step tokens event = after at heff ⊢
    cases heff with
    | idle => exact ⟨h, rfl⟩
    | moves hmove =>
      rw [setConn_conns, update_self]
      generalize server.conns id = conn at h hmove ⊢
      cases hmove with
      | writerFailed => exact ⟨h, rfl⟩
      | accepted hphase | closed hphase | refused _ hphase | welcomed hphase | unwelcomed hphase
      | ended hphase | aborted hphase => cases h.symm.trans hphase
    | registers hphase | leaves hphase | hello _ hphase | report _ _ hphase => cases h.symm.trans hphase
  · rw [step_conns_of_ne hevent]
    exact ⟨h, rfl⟩

end Server

/-- What a connection can do to the sessions: a data connection takes out the slot that it
names, and so does the report of a failure on a control connection. -/
inductive ServerEvent.Settles (id : ConnId) :
    ServerEvent → ConnPhase → String → (SessionSlot → Arrival) → Prop
  | hello {sessionId : String} (token : String) :
      Settles id (.firstFrame id (some (.control (.hello sessionId token)))) .accepted sessionId
        fun slot => if slot.expectedToken = token then .sent (.ok id) else .dropped
  | report {sessionId : String} (agentName : String) (error : Option String) (bytes : UInt64) :
      Settles id (.controlFrame id (some (.control (.sessionDone sessionId false error bytes))))
        (.serving agentName) sessionId fun _ => .sent (.error (error.getD "unknown error"))

namespace Server

variable {tokens : AgentTokens} {server after : Server} {id : ConnId} {event : ServerEvent}
  {sessionId : String} {arrival : SessionSlot → Arrival} {call other : CallId} {phase : CallPhase}

/-- The sessions and the calls are left alone. -/
structure SameCalls (server after : Server) : Prop where
  sessions : after.sessions = server.sessions
  calls : after.calls = server.calls

theorem SameCalls.refl : SameCalls server server := ⟨rfl, rfl⟩

/-- A connection that takes out a slot leaves the other sessions and calls alone. -/
theorem step_settles (h : event.Settles id (server.conns id).phase sessionId arrival) :
    SameCalls (server.settle sessionId arrival) (server.step tokens event) := by
  generalize hphase : (server.conns id).phase = phase at h
  cases h with
  | hello =>
    simp only [step, hphase]
    rw [handleConn_hello, ← setConn_settle]
    exact ⟨rfl, rfl⟩
  | report =>
    simp only [step, hphase]
    exact .refl

theorem step_sameCalls (h : event.connId = some id)
    (hsett : ∀ sessionId arrival, ¬ event.Settles id (server.conns id).phase sessionId arrival) :
    SameCalls server (server.step tokens event) := by
  have heff : ConnEffect tokens server id event (server.step tokens event) := step_of_conn h
  generalize server.step tokens event = after at heff ⊢
  cases heff with
  | idle | moves | registers | leaves => exact ⟨rfl, rfl⟩
  | hello token hphase =>
    rw [hphase] at hsett
    exact absurd (.hello token) (hsett _ _)
  | report error bytes hphase =>
    rw [hphase] at hsett
    exact absurd (.report _ error bytes) (hsett _ _)

/-! ### One call -/

def Awaited (server : Server) (call : CallId) : Prop :=
  ∃ sessionId slot, server.sessions sessionId = some slot ∧ slot.deliver = call

/-- The call goes on under its id: nothing arrives without a slot, and no other control
channel comes in. -/
structure CallMoved (server : Server) (call : CallId) (changed : Call) : Prop where
  agent : changed.agent = (server.calls call).agent
  sessionId : changed.sessionId = (server.calls call).sessionId
  arrival : changed.arrival = (server.calls call).arrival ∨ server.Awaited call
  phase : changed.phase = (server.calls call).phase ∨
    (∀ result, (server.calls call).phase ≠ .returned result) ∧ changed.phase.Late

theorem CallMoved.refl : CallMoved server call (server.calls call) := ⟨rfl, rfl, .inl rfl, .inl rfl⟩

theorem settle_call : ∃ changed,
    (server.settle sessionId arrival).calls call = { server.calls call with arrival := changed } ∧
      (changed = (server.calls call).arrival ∨ server.Awaited call) := by
  cases hslot : server.sessions sessionId with
  | none =>
    rw [settle_of_none hslot]
    exact ⟨_, rfl, .inl rfl⟩
  | some slot =>
    rw [settle_calls_of_some hslot]
    by_cases hcall : call = slot.deliver
    · subst hcall
      rw [update_self]
      exact ⟨_, rfl, .inr ⟨sessionId, slot, hslot, rfl⟩⟩
    · rw [update_of_ne hcall]
      exact ⟨_, rfl, .inl rfl⟩

theorem Awaited.of_settle (h : (server.settle sessionId arrival).Awaited call) : server.Awaited call := by
  obtain ⟨named, slot, hslot, hdel⟩ := h
  rw [settle_sessions] at hslot
  by_cases hnamed : named = sessionId
  · rw [hnamed, update_self] at hslot
    cases hslot
  · rw [update_of_ne hnamed] at hslot
    exact ⟨named, slot, hslot, hdel⟩

namespace CallMoved

variable {changed : Call}

theorem settle : CallMoved server call ((server.settle sessionId arrival).calls call) := by
  obtain ⟨sent, hcall, hsent⟩ := @settle_call server sessionId arrival call
  rw [hcall]
  exact ⟨rfl, rfl, hsent, .inl rfl⟩

theorem after_settle (h : CallMoved (server.settle sessionId arrival) call changed) :
    CallMoved server call changed := by
  obtain ⟨sent, hcall, hsent⟩ := @settle_call server sessionId arrival call
  obtain ⟨hagent, hsess, harr, hphase⟩ := h
  rw [hcall] at hagent hsess harr hphase
  refine ⟨hagent, hsess, ?_, hphase⟩
  rcases harr with hsame | hawaited
  · rcases hsent with hold | hawaited
    · exact .inl (hsame.trans hold)
    · exact .inr hawaited
  · exact .inr hawaited.of_settle

theorem setCall_of_ne (hne : call ≠ other) :
    CallMoved server call ((server.setCall other changed).calls call) := by
  rw [setCall_calls, update_of_ne hne]
  exact .refl

theorem moveCall (hphase : ∀ result, (server.calls other).phase ≠ .returned result) (hlate : phase.Late) :
    CallMoved server call ((server.moveCall other phase).calls call) := by
  by_cases hcall : call = other
  · subst hcall
    rw [Server.moveCall, setCall_calls, update_self]
    exact ⟨rfl, rfl, .inl rfl, .inr ⟨hphase, hlate⟩⟩
  · exact setCall_of_ne hcall

theorem failCall {message : String} (hphase : (server.calls other).phase = .failing message) :
    CallMoved server call ((server.failCall other message).calls call) := by
  unfold Server.failCall
  dsimp only
  split
  · rename_i named hnamed
    refine after_settle (moveCall (fun result hret => ?_) trivial)
    obtain ⟨sent, hcall, -⟩ := @settle_call server named (fun _ => .dropped) other
    rw [hcall] at hret
    cases hphase.symm.trans hret
  · exact moveCall (by simp [hphase]) trivial

end CallMoved

/-- A step lets a call go on, or makes the lookups at its start, or puts its slot into the
map. -/
theorem step_calls (tokens : AgentTokens) (server : Server) (event : ServerEvent) (call : CallId) :
    CallMoved server call ((server.step tokens event).calls call) ∨
      (∃ agent, (server.calls call).phase = .absent ∧
        server.step tokens event = server.openSession tokens call agent) ∨
      ∃ control token sessionId, (server.calls call).phase = .looked control token ∧
        event = .insertSlot call sessionId ∧
        server.step tokens event = server.insertSlot call control token sessionId := by
  cases hconn : event.connId with
  | some conn =>
    left
    by_cases hsett : ∃ sessionId arrival, event.Settles conn (server.conns conn).phase sessionId arrival
    · obtain ⟨sessionId, arrival, hsett⟩ := hsett
      rw [(step_settles hsett).calls]
      exact .settle
    · rw [(step_sameCalls hconn fun _ _ hone => hsett ⟨_, _, hone⟩).calls]
      exact .refl
  | none =>
    obtain ⟨other, hother⟩ := ServerEvent.exists_callId hconn
    have heff : CallEffect tokens server other event (server.step tokens event) := step_of_call hother
    generalize server.step tokens event = after at heff ⊢
    cases heff with
    | idle => exact .inl .refl
    | looks agent hphase =>
      by_cases hcall : call = other
      · subst hcall
        exact .inr (.inl ⟨agent, hphase, rfl⟩)
      · exact .inl (.setCall_of_ne hcall)
    | inserts sessionId hphase =>
      by_cases hcall : call = other
      · subst hcall
        exact .inr (.inr ⟨_, _, sessionId, hphase, rfl, rfl⟩)
      · exact .inl (CallMoved.after_settle (.setCall_of_ne hcall))
    | moves hactive hlate =>
      refine .inl (.moveCall (fun result hret => ?_) hlate)
      rw [hret] at hactive
      exact hactive
    | fails hphase => exact .inl (.failCall hphase)

theorem uses_of_step {control : ConnId} (h : ((server.step tokens event).calls call).phase.Uses control) :
    (server.calls call).phase.Uses control ∧
        ((server.step tokens event).calls call).agent = (server.calls call).agent ∨
      (server.calls call).phase = .absent ∧
        ∃ entry, server.agents ((server.step tokens event).calls call).agent = some entry ∧
          entry.control = control := by
  rcases step_calls tokens server event call with
    hmoved | ⟨agent, hphase, hstep⟩ | ⟨held, token, sessionId, hphase, -, hstep⟩
  · left
    rcases hmoved.phase with hsame | ⟨-, hlate⟩
    · exact ⟨hsame ▸ h, hmoved.agent⟩
    · exact absurd h hlate.not_uses
  · right
    refine ⟨hphase, ?_⟩
    rw [hstep] at h ⊢
    simp only [openSession, setCall_calls, update_self] at h ⊢
    split at h
    · simp [CallPhase.Uses] at h
    · simp [CallPhase.Uses] at h
    · rename_i entry token hentry _
      refine ⟨entry, hentry, ?_⟩
      simpa [CallPhase.Uses] using h
  · left
    rw [hstep] at h ⊢
    obtain ⟨sent, hsett, -⟩ := @settle_call server sessionId (fun _ => .dropped) call
    simp only [insertSlot, setCall_calls, update_self, hsett] at h ⊢
    obtain rfl : held = control := by simpa [CallPhase.Uses] using h
    exact ⟨.inr ⟨token, hphase⟩, trivial⟩

theorem sessionId_of_step (h : ((server.step tokens event).calls call).sessionId = some sessionId) :
    (server.calls call).sessionId = some sessionId ∨ event = .insertSlot call sessionId := by
  rcases step_calls tokens server event call with
    hmoved | ⟨agent, -, hstep⟩ | ⟨held, token, drawn, -, hevent, hstep⟩
  · exact .inl (hmoved.sessionId ▸ h)
  · rw [hstep] at h
    simp only [openSession, setCall_calls, update_self] at h
    exact .inl h
  · rw [hstep] at h
    simp only [insertSlot, setCall_calls, update_self, Option.some.injEq] at h
    exact .inr (h ▸ hevent)

end Server

end PbsGui.Relay
