import Mathlib.Logic.Function.Basic
import PbsGui.Relay.Proto

/-!
# The proxy's relay server

`server.rs` keeps two maps behind locks: the connected agents by name, and the sessions
that wait for a data connection by session id.  Every connection and every call of
`open_session` is a task of its own.

A run of the server is the list of what happens in it: a frame is read, a write ends, a lock is
taken, a call is polled.  What a task does between two such points is one step, and an event
that does not fit the state of its task changes nothing.  A command that waits for room in an
agent's control channel is sent at a later event.
-/

namespace PbsGui.Relay

/-! ### State -/

def relayProtoVersion : UInt32 := 1

/-- How long `open_session` waits for the data connection, in seconds. -/
def dataConnTimeout : Nat := 60

abbrev ConnId := Nat

/-- Calls of `open_session`. -/
abbrev CallId := Nat

abbrev AgentTokens := String → Option String

/-- Where the task of a connection stands. -/
inductive ConnPhase
  | absent
  /-- It waits for the first frame. -/
  | accepted
  | refused (message : String)
  /-- The answer to a good `Register` is being written. -/
  | welcoming (agentName host version : String)
  /-- It is in the registry and reads control frames. -/
  | serving (agentName : String)
  /-- The control loop has ended; the registry is yet to be looked at. -/
  | leaving (agentName : String)
  /-- The writer is yet to be aborted. -/
  | removed
  | closed

structure Conn where
  phase : ConnPhase
  /-- The control channel has a receiver. -/
  writer : Bool
  /-- The first frame; no step reads it. -/
  first : Option Frame

/-- A connected agent's server-side handle.  The control channel is known by the
connection it belongs to. -/
structure AgentConn where
  host : String
  version : String
  control : ConnId

/-- A commanded session waiting for its data connection.  The sender is known by the call
that waits at its other end. -/
structure SessionSlot where
  expectedToken : String
  deliver : CallId

/-- What has become of the sender of a call. -/
inductive Arrival
  | pending
  | sent (result : Except String ConnId)
  | dropped

/-- Where a call of `open_session` stands. -/
inductive CallPhase
  | absent
  /-- It has the agent's control channel and the token. -/
  | looked (control : ConnId) (expectedToken : String)
  /-- The slot is there; the command is being sent. -/
  | sending (control : ConnId)
  | waiting
  /-- It is about to remove the slot and to fail. -/
  | failing (message : String)
  | returned (result : Except String ConnId)
  /-- The caller has dropped it. -/
  | cancelled

structure Call where
  agent : String
  sessionId : Option String
  phase : CallPhase
  arrival : Arrival

/-- The server with its tasks. -/
structure Server where
  /-- Currently connected agents. -/
  agents : String → Option AgentConn
  /-- Sessions whose data connection has not arrived yet. -/
  sessions : String → Option SessionSlot
  conns : ConnId → Conn
  calls : CallId → Call
  /-- Everything that was ever put into the registry, newest first; no step reads it. -/
  registered : List (String × ConnId)

namespace Server

def new : Server where
  agents _ := none
  sessions _ := none
  conns _ := { phase := .absent, writer := false, first := none }
  calls _ := { agent := "", sessionId := none, phase := .absent, arrival := .pending }
  registered := []

variable (server : Server)

def setConn (id : ConnId) (conn : Conn) : Server :=
  { server with conns := Function.update server.conns id conn }

def setCall (id : CallId) (call : Call) : Server :=
  { server with calls := Function.update server.calls id call }

def setPhase (id : ConnId) (phase : ConnPhase) : Server :=
  server.setConn id { server.conns id with phase := phase }

def moveCall (id : CallId) (phase : CallPhase) : Server :=
  server.setCall id { server.calls id with phase := phase }

/-- Remove a slot, if it is there; its sender sends or is dropped. -/
def settle (sessionId : String) (arrival : SessionSlot → Arrival) : Server :=
  match server.sessions sessionId with
  | none => server
  | some slot =>
    { server with sessions := Function.update server.sessions sessionId none }.setCall slot.deliver
      { server.calls slot.deliver with arrival := arrival slot }

/-- Why a `Register` is refused. -/
def refusal (tokens : AgentTokens) (agentName token : String) (proto : UInt32) : Option String :=
  if proto ≠ relayProtoVersion then
    some ("protocol mismatch: agent speaks v" ++ toString proto ++ ", this proxy v" ++
      toString relayProtoVersion ++ " (update the older side)")
  else
    match tokens agentName with
    | some expected => if expected = token then none else some "bad token"
    | none => some ("agent '" ++ agentName ++ "' is not configured on this proxy")

/-- Classify a connection by its first frame; there is none if the peer closes the
connection, it fails, or ten seconds pass. -/
def handleConn (tokens : AgentTokens) (id : ConnId) (read : Option Frame) : Server :=
  let server := server.setConn id { server.conns id with first := read }
  match read with
  | some (.control (.register agentName host token version proto)) =>
    match refusal tokens agentName token proto with
    | some message => server.setPhase id (.refused message)
    | none => server.setPhase id (.welcoming agentName host version)
  | some (.control (.hello sessionId token)) =>
    -- the slot is gone before its token is compared
    (server.settle sessionId fun slot =>
      if slot.expectedToken = token then .sent (.ok id) else .dropped).setPhase id .closed
  | _ => server.setPhase id .closed

/-- The welcome has been written, and the agent goes into the registry. -/
def register (id : ConnId) (agentName host version : String) : Server :=
  { server with
    agents := Function.update server.agents agentName (some ⟨host, version, id⟩)
    registered := (agentName, id) :: server.registered }.setConn id
      { server.conns id with phase := .serving agentName, writer := true }

/-- One pass of the loop over an agent's control frames. -/
def readControl (id : ConnId) (agentName : String) (read : Option Frame) : Server :=
  match read with
  | some (.control (.sessionDone sessionId ok error _)) =>
    if ok then server
    else server.settle sessionId fun _ => .sent (.error (error.getD "unknown error"))
  | some (.control .pong) => server
  | _ => server.setPhase id (.leaving agentName)

/-- Deregister, but only if the registry still points at this connection. -/
def deregister (id : ConnId) (agentName : String) : Server :=
  { server with
    agents :=
      if (server.agents agentName).map AgentConn.control = some id then
        Function.update server.agents agentName none
      else server.agents }.setPhase id .removed

/-- The lookups at the start of `open_session`. -/
def openSession (tokens : AgentTokens) (id : CallId) (agent : String) : Server :=
  let phase :=
    match server.agents agent, tokens agent with
    | none, _ => .returned (.error ("relay agent '" ++ agent ++ "' is not connected"))
    | some _, none => .returned (.error ("relay agent '" ++ agent ++ "' is not configured"))
    | some entry, some token => .looked entry.control token
  server.setCall id { server.calls id with agent := agent, phase := phase }

/-- The slot goes into the map under a new id; a slot that is replaced loses its sender. -/
def insertSlot (id : CallId) (control : ConnId) (token sessionId : String) : Server :=
  let server := server.settle sessionId fun _ => .dropped
  { server with sessions := Function.update server.sessions sessionId (some ⟨token, id⟩) }.setCall id
    { server.calls id with sessionId := some sessionId, phase := .sending control }

/-- The text of a call that has waited in vain. -/
def noDataConn (agent : String) : String :=
  "relay agent '" ++ agent ++ "' did not open a data connection within " ++
    toString dataConnTimeout ++ "s"

/-- A poll of the wait for the data connection; what has arrived counts before the time
that has passed. -/
def pollCall (id : CallId) (elapsed : Bool) : Server :=
  let call := server.calls id
  match call.arrival with
  | .sent (.ok conn) => server.moveCall id (.returned (.ok conn))
  | .sent (.error error) =>
    server.moveCall id
      (.failing ("relay agent '" ++ call.agent ++ "' could not start the session: " ++ error))
  | .dropped => server.moveCall id (.failing (noDataConn call.agent))
  | .pending => if elapsed then server.moveCall id (.failing (noDataConn call.agent)) else server

/-- A failing call removes its slot and returns. -/
def failCall (id : CallId) (message : String) : Server :=
  let server :=
    match (server.calls id).sessionId with
    | some sessionId => server.settle sessionId fun _ => .dropped
    | none => server
  server.moveCall id (.returned (.error message))

end Server

/-- What happens in the server. -/
inductive ServerEvent
  /-- A TLS connection is accepted. -/
  | accept (id : ConnId)
  | firstFrame (id : ConnId) (read : Option Frame)
  /-- The write of the welcome ends. -/
  | welcomed (id : ConnId) (written : Bool)
  | controlFrame (id : ConnId) (read : Option Frame)
  | teardown (id : ConnId)
  | abortWriter (id : ConnId)
  /-- The writer of a control connection ends by itself. -/
  | writerFailed (id : ConnId)
  | openSession (id : CallId) (agent : String)
  | insertSlot (id : CallId) (sessionId : String)
  /-- The command to the agent is in the channel, or the channel is closed. -/
  | sendStart (id : CallId)
  | poll (id : CallId) (elapsed : Bool)
  | removeSlot (id : CallId)
  /-- The caller drops the call. -/
  | cancel (id : CallId)

namespace Server

def step (tokens : AgentTokens) (server : Server) : ServerEvent → Server
  | .accept id =>
    match (server.conns id).phase with
    | .absent => server.setPhase id .accepted
    | _ => server
  | .firstFrame id read =>
    match (server.conns id).phase with
    | .accepted => server.handleConn tokens id read
    | _ => server
  | .welcomed id written =>
    match (server.conns id).phase with
    | .welcoming agentName host version =>
      if written then server.register id agentName host version else server.setPhase id .closed
    | _ => server
  | .controlFrame id read =>
    match (server.conns id).phase with
    | .serving agentName => server.readControl id agentName read
    | _ => server
  | .teardown id =>
    match (server.conns id).phase with
    | .leaving agentName => server.deregister id agentName
    | _ => server
  | .abortWriter id =>
    match (server.conns id).phase with
    | .removed => server.setConn id { server.conns id with phase := .closed, writer := false }
    | _ => server
  | .writerFailed id => server.setConn id { server.conns id with writer := false }
  | .openSession id agent =>
    match (server.calls id).phase with
    | .absent => server.openSession tokens id agent
    | _ => server
  | .insertSlot id sessionId =>
    match (server.calls id).phase with
    | .looked control token => server.insertSlot id control token sessionId
    | _ => server
  | .sendStart id =>
    match (server.calls id).phase with
    | .sending control =>
      if (server.conns control).writer then server.moveCall id .waiting
      else
        server.moveCall id
          (.failing ("relay agent '" ++ (server.calls id).agent ++ "' disconnected"))
    | _ => server
  | .poll id elapsed =>
    match (server.calls id).phase with
    | .waiting => server.pollCall id elapsed
    | _ => server
  | .removeSlot id =>
    match (server.calls id).phase with
    | .failing message => server.failCall id message
    | _ => server
  | .cancel id =>
    -- a call can be dropped where it awaits something
    match (server.calls id).phase with
    | .sending _ | .waiting => server.moveCall id .cancelled
    | _ => server

def run (tokens : AgentTokens) (server : Server) (events : List ServerEvent) : Server :=
  events.foldl (step tokens) server

section Fields

variable {server : Server} {id other : ConnId} {conn : Conn} {phase : ConnPhase} {callId : CallId}
  {call : Call} {callPhase : CallPhase} {sessionId wanted : String}
  {arrival : SessionSlot → Arrival}

@[simp] theorem setConn_agents : (server.setConn id conn).agents = server.agents := rfl
@[simp] theorem setConn_sessions : (server.setConn id conn).sessions = server.sessions := rfl
@[simp] theorem setConn_conns :
    (server.setConn id conn).conns = Function.update server.conns id conn := rfl

@[simp] theorem setCall_calls :
    (server.setCall callId call).calls = Function.update server.calls callId call := rfl

@[simp] theorem settle_agents : (server.settle sessionId arrival).agents = server.agents := by
  unfold settle
  split <;> rfl

@[simp] theorem settle_conns : (server.settle sessionId arrival).conns = server.conns := by
  unfold settle
  split <;> rfl

@[simp] theorem settle_registered :
    (server.settle sessionId arrival).registered = server.registered := by
  unfold settle
  split <;> rfl

@[simp] theorem settle_sessions : (server.settle sessionId arrival).sessions =
    Function.update server.sessions sessionId none := by
  unfold settle
  split
  · rename_i hnone
    rw [← hnone, Function.update_eq_self]
  · rfl

theorem settle_of_none (h : server.sessions sessionId = none) :
    server.settle sessionId arrival = server := by
  rw [settle, h]

theorem settle_calls_of_some {slot : SessionSlot} (h : server.sessions sessionId = some slot) :
    (server.settle sessionId arrival).calls = Function.update server.calls slot.deliver
      { server.calls slot.deliver with arrival := arrival slot } := by
  rw [settle, h]
  rfl

end Fields

end Server

end PbsGui.Relay
