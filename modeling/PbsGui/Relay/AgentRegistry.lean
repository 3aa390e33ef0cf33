import PbsGui.Lib.Registry
import PbsGui.Relay.ServerSteps

/-!
# The registry of connected agents

An agent that reconnects may do so before the proxy has noticed the end of its old
connection, and the teardown of the old one may come at any time after that.  The
registry is a `Lib.Registry` with the connections as owners.
-/

namespace PbsGui.Relay

open Lib List Function

/-- The connection is registered under the name, and its teardown is yet to come. -/
def ConnPhase.Serves (phase : ConnPhase) (agentName : String) : Prop :=
  phase = .serving agentName ∨ phase = .leaving agentName

/-- The connection was registered under the name at some time. -/
def ConnPhase.Registered (phase : ConnPhase) (agentName : String) : Prop :=
  phase.Serves agentName ∨ phase = .removed ∨ phase = .closed

section Moves

variable {tokens : AgentTokens} {id : ConnId} {event : ServerEvent} {before after : Conn}

/-- What a connection does by itself does not bring it into the registry or out of it. -/
theorem ConnMove.serves_iff (h : ConnMove tokens id event before after) (agentName : String) :
    after.phase.Serves agentName ↔ before.phase.Serves agentName := by
  cases h with
  | writerFailed => exact Iff.rfl
  | accepted hphase | closed hphase | refused _ hphase | welcomed hphase | unwelcomed hphase
  | ended hphase | aborted hphase => simp [ConnPhase.Serves, hphase]

theorem ConnMove.registered (h : ConnMove tokens id event before after) (agentName : String)
    (hpre : before.phase.Registered agentName) : after.phase.Registered agentName := by
  cases h with
  | writerFailed => exact hpre
  | ended hphase => simpa [ConnPhase.Registered, ConnPhase.Serves, hphase] using hpre
  | aborted => exact .inr (.inr rfl)
  | accepted hphase | closed hphase | refused _ hphase | welcomed hphase | unwelcomed hphase =>
    simp [ConnPhase.Registered, ConnPhase.Serves, hphase] at hpre

end Moves

/-- The connection that was registered last under a name. -/
def newestConn (registered : List (String × ConnId)) (agentName : String) : Option ConnId :=
  (registered.find? fun entry => entry.1 = agentName).map Prod.snd

theorem newestConn_cons (registered : List (String × ConnId)) (agentName : String) (id : ConnId) :
    newestConn ((agentName, id) :: registered) =
      Function.update (newestConn registered) agentName (some id) := by
  funext other
  by_cases hother : other = agentName
  · subst hother
    simp [newestConn]
  · have hne : agentName ≠ other := fun heq => hother heq.symm
    simp [newestConn, hother, hne]

theorem mem_of_newestConn {registered : List (String × ConnId)} {agentName : String} {id : ConnId}
    (h : newestConn registered agentName = some id) : (agentName, id) ∈ registered := by
  obtain ⟨⟨name, conn⟩, hfound, rfl⟩ := Option.map_eq_some_iff.mp h
  have hname : name = agentName := by simpa using find?_some hfound
  exact hname ▸ mem_of_find?_eq_some hfound

namespace Server

variable {tokens : AgentTokens} {server after : Server} {event : ServerEvent} {id : ConnId} {conn : Conn}
  {call : CallId}

/-- The registry and the connections in it are left alone. -/
structure SameRegistry (server after : Server) : Prop where
  agents : after.agents = server.agents
  registered : after.registered = server.registered
  serves : ∀ id agentName, (after.conns id).phase.Serves agentName ↔
    (server.conns id).phase.Serves agentName
  stays : ∀ id agentName, (server.conns id).phase.Registered agentName →
    (after.conns id).phase.Registered agentName

theorem SameRegistry.of_sameConns (h : SameConns server after) : SameRegistry server after where
  agents := h.agents
  registered := h.registered
  serves id agentName := by rw [h.conns]
  stays id agentName hreg := by rwa [h.conns]

theorem SameRegistry.of_update (hagents : after.agents = server.agents)
    (hreg : after.registered = server.registered)
    (hconns : after.conns = Function.update server.conns id conn)
    (hserves : ∀ agentName, conn.phase.Serves agentName ↔ (server.conns id).phase.Serves agentName)
    (hstays : ∀ agentName, (server.conns id).phase.Registered agentName →
      conn.phase.Registered agentName) : SameRegistry server after where
  agents := hagents
  registered := hreg
  serves other agentName := by
    rw [hconns]
    by_cases hother : other = id
    · rw [hother, update_self]
      exact hserves agentName
    · rw [update_of_ne hother]
  stays other agentName h := by
    rw [hconns]
    by_cases hother : other = id
    · rw [hother, update_self]
      exact hstays agentName (hother ▸ h)
    · rwa [update_of_ne hother]

/-- A step puts a connection into the registry, takes one out, or leaves the registry and
the connections in it alone. -/
theorem step_registry :
    (∃ id agentName host version, (server.conns id).phase = .welcoming agentName host version ∧
        server.step tokens event = server.register id agentName host version) ∨
      (∃ id agentName, (server.conns id).phase = .leaving agentName ∧
        server.step tokens event = server.deregister id agentName) ∨
      SameRegistry server (server.step tokens event) := by
  cases hconn : event.connId with
  | none => exact .inr (.inr (.of_sameConns (step_sameConns hconn)))
  | some id =>
    have heff : ConnEffect tokens server id event (server.step tokens event) := step_of_conn hconn
    generalize server.step tokens event = after at heff ⊢
    cases heff with
    | idle => exact .inr (.inr (.of_sameConns .refl))
    | moves hmove => exact .inr (.inr (.of_update rfl rfl rfl hmove.serves_iff hmove.registered))
    | registers hphase => exact .inl ⟨id, _, _, _, hphase, rfl⟩
    | leaves hphase => exact .inr (.inl ⟨id, _, hphase, rfl⟩)
    | @hello sessionId token hphase =>
      let read : Option Frame := some (.control (.hello sessionId token))
      have hmove := @ConnMove.closed tokens id (.firstFrame id read) (server.conns id) read hphase
      refine .inr (.inr (.of_update settle_agents settle_registered ?_ hmove.serves_iff
        hmove.registered))
      rw [settle_conns, setConn_conns]
    | report => exact .inr (.inr (.of_sameConns .settle))

/-- What holds of the registry in every state. -/
structure RegistryInv (server : Server) : Prop where
  registered : ∀ entry ∈ server.registered, (server.conns entry.2).phase.Registered entry.1
  tracks : Registry.Tracks AgentConn.control server.agents (newestConn server.registered)
    fun id => ∃ agentName, (server.conns id).phase.Serves agentName

theorem RegistryInv.new : RegistryInv new where
  registered _ hentry := absurd hentry not_mem_nil
  tracks := .empty

theorem RegistryInv.register (h : RegistryInv server) {agentName host version : String}
    (hphase : (server.conns id).phase = .welcoming agentName host version) :
    RegistryInv (server.register id agentName host version) := by
  have hnew : ∀ name, (name, id) ∉ server.registered := by
    intro name hmem
    have hreg := h.registered _ hmem
    rw [hphase] at hreg
    simp [ConnPhase.Registered, ConnPhase.Serves] at hreg
  constructor
  · intro entry hentry
    simp only [Server.register, setConn_conns]
    rcases mem_cons.mp hentry with rfl | hold
    · simp [ConnPhase.Registered, ConnPhase.Serves]
    · have hne : entry.2 ≠ id := fun heq => hnew entry.1 (heq ▸ hold)
      rw [update_of_ne hne]
      exact h.registered entry hold
  · have hnewest : newestConn (server.register id agentName host version).registered =
        update (newestConn server.registered) agentName (some id) :=
      newestConn_cons _ _ _
    rw [hnewest]
    refine @Registry.Tracks.insert _ _ _ AgentConn.control _ _ _ _ agentName ⟨host, version, id⟩ _
      h.tracks (fun name hname => hnew name (mem_of_newestConn hname)) fun other => ?_
    simp only [Server.register, setConn_conns]
    by_cases hother : other = id
    · subst hother
      simp [ConnPhase.Serves]
    · simp [hother]

theorem RegistryInv.deregister (h : RegistryInv server) {agentName : String}
    (hphase : (server.conns id).phase = .leaving agentName) :
    RegistryInv (server.deregister id agentName) := by
  constructor
  · intro entry hentry
    simp only [Server.deregister, setPhase, setConn_conns]
    by_cases hid : entry.2 = id
    · rw [hid, update_self]
      exact .inr (.inl rfl)
    · rw [update_of_ne hid]
      exact h.registered entry hentry
  · refine @Registry.Tracks.remove _ _ _ AgentConn.control _ _ _ _ agentName id _ _ h.tracks
      (fun name hname => ?_) fun other => ?_
    · have hreg := h.registered _ (mem_of_newestConn hname)
      rw [hphase] at hreg
      simpa [ConnPhase.Registered, ConnPhase.Serves, eq_comm] using hreg
    · simp only [Server.deregister, setPhase, setConn_conns]
      by_cases hother : other = id
      · subst hother
        simp [ConnPhase.Serves]
      · simp [hother]

theorem RegistryInv.sameRegistry (h : RegistryInv server) (hsame : SameRegistry server after) :
    RegistryInv after := by
  constructor
  · intro entry hentry
    rw [hsame.registered] at hentry
    exact hsame.stays _ _ (h.registered entry hentry)
  · rw [hsame.agents, hsame.registered]
    exact h.tracks.congr fun id => exists_congr fun agentName => hsame.serves id agentName

theorem RegistryInv.step (h : RegistryInv server) : RegistryInv (server.step tokens event) := by
  rcases @step_registry tokens server event with
    ⟨id, agentName, host, version, hphase, hstep⟩ | ⟨id, agentName, hphase, hstep⟩ | hsame
  · rw [hstep]
    exact h.register hphase
  · rw [hstep]
    exact h.deregister hphase
  · exact h.sameRegistry hsame

theorem registryInv_run (tokens : AgentTokens) (events : List ServerEvent) :
    RegistryInv (run tokens new events) :=
  @EventRuns.invariant_of_foldl _ _ _ (fun _ => True) _ (fun _ _ _ hpre => hpre.step) events
    (fun _ _ => trivial) new .new

/-- In every run: the teardown of a connection leaves the entries of all others; a name
whose newest connection is still served has an entry, and it points there; and once all
connections of a name have been torn down, the name has none. -/
theorem registry_follows_newest (tokens : AgentTokens) (events : List ServerEvent) :
    let server := run tokens new events
    (∀ id agentName entry, server.agents agentName = some entry → entry.control ≠ id →
        (server.step tokens (.teardown id)).agents agentName = some entry) ∧
      (∀ id agentName, newestConn server.registered agentName = some id →
        (server.conns id).phase.Serves agentName →
          ∃ entry, server.agents agentName = some entry ∧ entry.control = id) ∧
      ∀ agentName, (∀ id, (agentName, id) ∈ server.registered →
          ¬ (server.conns id).phase.Serves agentName) → server.agents agentName = none := by
  intro server
  have hinv : RegistryInv server := registryInv_run tokens events
  refine ⟨fun id agentName entry hentry hne => ?_, fun id agentName hnewest hserves => ?_,
    fun agentName hgone => ?_⟩
  · simp only [Server.step]
    split
    · exact Registry.removeOwned_of_ne hentry hne
    · exact hentry
  · exact hinv.tracks.complete agentName id hnewest ⟨agentName, hserves⟩
  · refine hinv.tracks.eq_none fun id hnewest => ?_
    rintro ⟨name, hserves⟩
    -- a connection serves under the name it was registered with
    have hmem := mem_of_newestConn hnewest
    have hname : name = agentName := by
      have hregistered := hinv.registered _ hmem
      rcases hserves with hphase | hphase
      · rw [hphase] at hregistered
        simpa [ConnPhase.Registered, ConnPhase.Serves] using hregistered
      · rw [hphase] at hregistered
        simpa [ConnPhase.Registered, ConnPhase.Serves] using hregistered
    exact hgone id hmem (hname ▸ hserves)

-- an agent reconnects, and its old connection is torn down after that
example :
    let register := Frame.control (.register "alpha" "host1" "a-token" "1.0" 1)
    let server := run (fun _ => some "a-token") new
      [.accept 1, .firstFrame 1 (some register), .welcomed 1 true,
        .accept 2, .firstFrame 2 (some register), .welcomed 2 true,
        .controlFrame 1 none, .teardown 1]
    (server.agents "alpha").map AgentConn.control = some 2 := rfl

end Server

end PbsGui.Relay
